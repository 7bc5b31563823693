import ModWizard.Disk
import ModWizard.Organizer
import ModWizard.Text.Lowercase

/-!
# Data files

How a script's path is looked up: in the virtual data folder, or, if it goes up from the
data folder, on the disk.
-/

namespace ModWizard

namespace VirtualFile

/-- The virtual folder of a file, empty if it has none. -/
def folder (f : VirtualFile) : String :=
  "/".intercalate (Text.splitSlashes f.virtual).dropLast

/-- The name of a file in its virtual folder. -/
def name (f : VirtualFile) : String := Text.lastName f.virtual

end VirtualFile

namespace DataFile

/-- The real places of the files in a virtual folder whose names match a pattern (`findFiles`). -/
def search (org : Organizer) (folder pattern : String) : List String :=
  (org.files.filter fun f =>
    Text.sameLetters f.folder folder && org.host.isMatch pattern f.name).map (·.real)

/-- The text of a path's folder, empty for the data folder itself. -/
def folderText (p : Path) : String := if p.parent.text = "." then "" else p.parent.text

/-- The real place of a path, if there is one (`_resolve`).  The virtual folder is searched for the
name of the path behind a wildcard, and the first file that is found is taken. -/
def resolve? (org : Organizer) (disk : Disk) (path : String) : Except Disk.Fault (Option Path) :=
  if "..".toList.isPrefixOf path.toList then
    (disk.look (Disk.dataPath path)).map fun i => i.map fun _ => Disk.dataPath path
  else
    let p := Path.ofString path
    .ok ((search org (folderText p) ("*" ++ p.name)).head?.map Path.ofString)

/-- Whether all of some paths have a real place (`dataFileExists`).  After one that has none, no
other is looked up. -/
def allExist (org : Organizer) (disk : Disk) : List String → Except Disk.Fault Bool
  | [] => .ok true
  | p :: ps =>
    (resolve? org disk p).bind fun r => if r.isSome then allExist org disk ps else .ok false

/-- The name of the item of some kind to which a path leads, empty if it leads to none. -/
def nameOf (ok : Disk.Item → Bool) (org : Organizer) (disk : Disk) (path : String) :
    Except Disk.Fault String :=
  (resolve? org disk path).bind fun
    | none => .ok ""
    | some p => (disk.look p).map fun i => if i.any ok then p.name else ""

/-- The name of the file to which a path leads, empty if it leads to none (`getFilename`). -/
def fileName (org : Organizer) (disk : Disk) (path : String) : Except Disk.Fault String :=
  nameOf Disk.Item.isFile org disk path

/-- The name of the folder to which a path leads, empty if it leads to none (`getFolder`). -/
def folderName (org : Organizer) (disk : Disk) (path : String) : Except Disk.Fault String :=
  nameOf Disk.Item.isFolder org disk path

end DataFile

end ModWizard
