import ModWizard.Text.Lowercase
import ModWizard.Text.Split

/-!
# File trees

The content of an archive or of an installed mod.  A tree is a row of entries, each a file or a
folder with a tree of its own.  Names are compared without regard to letter case.  A tree stands for
the `IFileTree` of the organizer, as far as it is used.
-/

namespace ModWizard

/-- A row of files and folders. -/
inductive Tree
  | nil
  /-- a file, with the number that tells it from the other files of the archive, if it is one of
  them -/
  | file (name : String) (id : Option Nat) (rest : Tree)
  | folder (name : String) (inner rest : Tree)
  deriving DecidableEq, Inhabited

/-- A file or a folder. -/
inductive Entry
  | file (name : String) (id : Option Nat)
  | folder (name : String) (inner : Tree)
  deriving DecidableEq, Inhabited

namespace Entry

/-- The name of an entry. -/
def name : Entry → String
  | file n _ => n
  | folder n _ => n

/-- Whether an entry is a folder. -/
def isFolder : Entry → Bool
  | file .. => false
  | folder .. => true

/-- Whether an entry is a file. -/
def isFile (e : Entry) : Bool := !e.isFolder

/-- Whether an entry has the name, in any letter case. -/
def isNamed (n : String) (e : Entry) : Bool := Text.sameLetters e.name n

/-- Whether there is something at an entry: a file, or a folder that is not empty. -/
def isSolid : Entry → Bool
  | folder _ .nil => false
  | _ => true

/-- Whether two entries are one and the same file of the archive: entries are compared by identity,
and the numbers stand for it. -/
def isSame : Entry → Entry → Bool
  | file _ (some i), file _ (some j) => i == j
  | _, _ => false

/-- Whether the name ends with a point and one of some endings, in any letter case. -/
def hasSuffix (endings : List String) (e : Entry) : Bool :=
  endings.any fun s => ('.' :: (Text.lower s).toList).isSuffixOf (Text.lower e.name).toList

end Entry

namespace Tree

/-- The entries of a tree, in order. -/
def entries : Tree → List Entry
  | nil => []
  | file n o rest => .file n o :: rest.entries
  | folder n i rest => .folder n i :: rest.entries

/-- The tree of some entries. -/
def ofEntries : List Entry → Tree
  | [] => nil
  | .file n o :: es => file n o (ofEntries es)
  | .folder n i :: es => folder n i (ofEntries es)

@[simp] theorem entries_ofEntries (es : List Entry) : (ofEntries es).entries = es := by
  induction es with
  | nil => rfl
  | cons e es ih => cases e <;> simp [ofEntries, entries, ih]

@[simp] theorem ofEntries_entries (t : Tree) : ofEntries t.entries = t := by
  induction t with
  | nil => rfl
  | file n o rest ih => simp [ofEntries, entries, ih]
  | folder n i rest _ ih => simp [ofEntries, entries, ih]

/-- The names that a path is made of: slashes and backslashes divide, empty names do not
count. -/
def pathNames (path : String) : List String :=
  ((Text.splitAt (fun c => c == '/' || c == '\\') path.toList).filter (!·.isEmpty)).map
    String.ofList

/-- A path with a name below it.  Below no path, and below one that is empty, the name stands
alone. -/
def pathBelow (path name : String) : String := if path = "" then name else path ++ "/" ++ name

/-- The text of a path (`path`). -/
def pathText (names : List String) : String := names.foldl pathBelow ""

/-- The first entry of a name that passes a test. -/
def child? (t : Tree) (ok : Entry → Bool) (n : String) : Option Entry :=
  t.entries.find? fun e => ok e && e.isNamed n

/-- The entry at a path, if it passes a test. -/
def findFrom? (ok : Entry → Bool) : Tree → List String → Option Entry
  | _, [] => none
  | t, [n] => t.child? ok n
  | t, n :: ns =>
    match t.child? Entry.isFolder n with
    | some (.folder _ inner) => findFrom? ok inner ns
    | _ => none

/-- The entry at a path (`find`). -/
def find? (t : Tree) (path : String) : Option Entry := findFrom? (fun _ => true) t (pathNames path)

/-- The file at a path. -/
def findFile? (t : Tree) (path : String) : Option Entry := findFrom? Entry.isFile t (pathNames path)

/-- Whether there is an entry at a path (`exists`). -/
def contains (t : Tree) (path : String) : Bool := (t.find? path).isSome

/-- All entries of a tree below some names, each with the names that lead to it: an entry
comes before what is below it. -/
def walkBelow (above : List String) : Tree → List (List String × Entry)
  | nil => []
  | file n o rest => (above ++ [n], .file n o) :: walkBelow above rest
  | folder n i rest =>
    (above ++ [n], .folder n i) :: (walkBelow (above ++ [n]) i ++ walkBelow above rest)

/-- All entries of a tree, each with the names that lead to it (`walk`). -/
def walk (t : Tree) : List (List String × Entry) := t.walkBelow []

/-- The line of an entry in a listing: all names that lead to it, divided by slashes, with a
slash behind a folder's. -/
def listingLine (names : List String) (e : Entry) : String :=
  "/".intercalate names ++ if e.isFolder then "/" else ""

/-- The listing of all entries. -/
def listing (t : Tree) : List String := t.walk.map fun p => listingLine p.1 p.2

end Tree

end ModWizard
