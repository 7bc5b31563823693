import ModWizard.Tree.Basic

/-!
# Changes of file trees

An entry put into a tree takes the place of the entry of its name, or comes last.  Merging
puts the entries of one tree into another, folder into folder.  On the way to a new place
missing folders are made.
-/

namespace ModWizard.Tree

/-- Why a tree cannot be changed. -/
inductive Fault
  /-- the path has no names -/
  | noPath
  /-- a file stands where the path needs a folder -/
  | fileOnTheWay
  deriving DecidableEq, Inhabited

/-- Some entries with one put among them. -/
def putAmong (e : Entry) : List Entry → List Entry
  | [] => [e]
  | x :: xs => if x.isNamed e.name then e :: xs else x :: putAmong e xs

/-- The tree with an entry put into it. -/
def put (t : Tree) (e : Entry) : Tree := ofEntries (putAmong e t.entries)

@[simp] theorem entries_put (t : Tree) (e : Entry) :
    (t.put e).entries = putAmong e t.entries := entries_ofEntries _

/-- Some entries with the first that passes a test changed, or left out. -/
def changeFirst (p : Entry → Bool) (f : Entry → Option Entry) : List Entry → List Entry
  | [] => []
  | e :: es => if p e then (f e).toList ++ es else e :: changeFirst p f es

/-- The tree with the first entry of a name changed, or left out, among those that pass a
test. -/
def changeChild (t : Tree) (ok : Entry → Bool) (n : String) (f : Entry → Option Entry) : Tree :=
  ofEntries (changeFirst (fun e => ok e && e.isNamed n) f t.entries)

/-- The tree with the entry at a path changed, or left out. -/
def changeAt (f : Entry → Option Entry) : Tree → List String → Tree
  | t, [] => t
  | t, [n] => t.changeChild (fun _ => true) n f
  | t, n :: ns =>
    t.changeChild Entry.isFolder n fun
      | .folder m i => some (.folder m (changeAt f i ns))
      | e => some e

/-- The tree without the entry at a path. -/
def removeAt (t : Tree) (ns : List String) : Tree := changeAt (fun _ => none) t ns

/-- The tree with the folder at a path made empty. -/
def emptyAt (t : Tree) (ns : List String) : Tree :=
  changeAt (fun | .folder n _ => some (.folder n .nil) | e => some e) t ns

/-- Some entries with a folder merged into the folder of its name, or put among them. -/
def mergeFolder (n : String) (inner : Tree) (into : Tree → Tree) : List Entry → List Entry
  | [] => [.folder n inner]
  | e :: es =>
    if e.isNamed n then
      (match e with
        | .folder m i => .folder m (into i)
        | .file .. => .folder n inner) :: es
    else e :: mergeFolder n inner into es

/-- A tree with the entries of another merged into it (`merge`). -/
def merge : Tree → Tree → Tree
  | t, nil => t
  | t, file n o rest => merge (t.put (.file n o)) rest
  | t, folder n i rest =>
    merge (ofEntries (mergeFolder n i (fun into => merge into i) t.entries)) rest

/-- Changes the folder at a path.  Missing folders on the way are made. -/
def inFolder (f : Tree → Tree) : Tree → List String → Except Fault Tree
  | t, [] => .ok (f t)
  | t, n :: ns =>
    match t.child? (fun _ => true) n with
    | none => (inFolder f nil ns).map fun i => ofEntries (t.entries ++ [.folder n i])
    | some (.file ..) => .error .fileOnTheWay
    | some (.folder m inner) =>
      (inFolder f inner ns).map fun i => t.changeChild (fun _ => true) n fun _ => some (.folder m i)

/-- Puts an entry at a path, under the path's last name. -/
def putAt (t : Tree) (ns : List String) (named : String → Entry) : Except Fault Tree :=
  match ns.getLast? with
  | none => .error .noPath
  | some n => inFolder (·.put (named n)) t ns.dropLast

/-- Puts a new file at a path (`addFile`). -/
def addFile (t : Tree) (ns : List String) : Except Fault Tree := t.putAt ns fun n => .file n none

/-- The names of a path as the entries on it are named. -/
def spelling : Tree → List String → List String
  | _, [] => []
  | t, n :: ns =>
    match t.child? (fun _ => true) n with
    | some (.folder m inner) => m :: spelling inner ns
    | some (.file m _) => m :: ns
    | none => n :: ns

end ModWizard.Tree

namespace ModWizard

/-- An entry under another name. -/
def Entry.rename (n : String) : Entry → Entry
  | .file _ o => .file n o
  | .folder _ i => .folder n i

namespace Tree

/-- The names of the place to which an entry is moved.  A path that ends with a slash is a
folder's, and the entry keeps its name. -/
def targetNames (e : Entry) (path : String) : List String :=
  match path.toList.getLast? with
  | some '/' => pathNames path ++ [e.name]
  | some '\\' => pathNames path ++ [e.name]
  | _ => pathNames path

/-- Whether two paths are the same in any letter case. -/
def samePath (ms ns : List String) : Bool := ms.map Text.lower == ns.map Text.lower

/-- Whether a path leads into a place, in any letter case. -/
def leadsInto (ms ns : List String) : Bool := (ns.map Text.lower).isPrefixOf (ms.map Text.lower)

/-- Moves the entry `e` at a path to another path (`move`).  Nothing happens if another entry is
there.  A folder that is moved into itself is gone. -/
def move (t : Tree) (source : List String) (e : Entry) (path : String) : Except Fault Tree :=
  let target := targetNames e path
  match target.getLast? with
  | none => .error .noPath
  | some n =>
    if (findFrom? (fun _ => true) t target).isSome && !samePath source target then .ok t
    else
      (inFolder id t target.dropLast).bind fun made =>
        let removed := made.removeAt source
        if leadsInto target.dropLast source then .ok removed
        else inFolder (·.put (e.rename n)) removed target.dropLast

end Tree

end ModWizard
