import ModWizard.Path
import ModWizard.Table

/-!
# The disk

The files and folders below the folder in which the organizer runs, which is the present
folder.  A path is walked name by name, so two paths that are written differently may lead
to the same file.
-/

namespace ModWizard

namespace Disk

/-- Why a path cannot be used. -/
inductive Fault
  /-- a name holds the character that ends every text on the disk -/
  | nullCharacter
  /-- a name, or the whole path, is too long -/
  | tooLong
  /-- there is nothing at the path -/
  | missing
  /-- the path leads through a file -/
  | throughFile
  /-- a folder is where a file is wanted -/
  | isFolder
  /-- a file is where a folder is wanted -/
  | isFile
  /-- too many folders are to be made at once -/
  | tooDeep
  deriving DecidableEq, Inhabited

/-- What is at a place. -/
inductive Item
  | file (content : ByteArray)
  | folder
  deriving Inhabited

instance : DecidableEq Item
  | .file a, .file b =>
    match ByteArray.instDecidableEq a b with
    | isTrue h => isTrue (h ▸ rfl)
    | isFalse h => isFalse fun e => h (Item.file.inj e)
  | .file _, .folder => isFalse Item.noConfusion
  | .folder, .file _ => isFalse Item.noConfusion
  | .folder, .folder => isTrue rfl

/-- Whether an item is a file. -/
def Item.isFile : Item → Bool
  | file _ => true
  | folder => false

/-- Whether an item is a folder. -/
def Item.isFolder (i : Item) : Bool := !i.isFile

/-- The names that lead to a place from the present folder: first those that go up. -/
abbrev Place := List String

/-- The place one folder up. -/
def up (place : Place) : Place :=
  match place.getLast? with
  | none => [".."]
  | some n => if n = ".." then place ++ [".."] else place.dropLast

/-- The most bytes of a name. -/
def maxName : Nat := 255

/-- The most bytes of a path. -/
def maxPath : Nat := 4095

/-- Whether a name has too many bytes. -/
def isTooLong (n : String) : Bool := maxName < n.utf8ByteSize

/-- Whether a name holds the character that ends every text on the disk. -/
def hasNull (n : String) : Bool := n.toList.contains (Char.ofNat 0)

/-- What is wrong with a path before it is walked. -/
def check (p : Path) : Except Fault Unit :=
  if p.names.any hasNull then .error .nullCharacter
  else if maxPath < p.text.utf8ByteSize then .error .tooLong
  else .ok ()

end Disk

/-- The items below the present folder, by their places. -/
structure Disk where
  items : Table Disk.Place Disk.Item
  deriving DecidableEq, Inhabited

namespace Disk

/-- The disk with nothing in the present folder. -/
def bare : Disk := ⟨∅⟩

/-- What is at a place.  The present folder and those above it are always there. -/
def item? (d : Disk) (place : Place) : Option Item :=
  if place.all (· == "..") then some .folder else d.items.get? place

/-- The disk with an item put at a place. -/
def put (d : Disk) (place : Place) (i : Item) : Disk := ⟨d.items.insert place i⟩

/-- The disk without what is at a place and below it. -/
def remove (d : Disk) (place : Place) : Disk := ⟨d.items.filterKeys fun p => !place.isPrefixOf p⟩

/-- Below the present folder, what was put at a place is there. -/
theorem item?_put {d : Disk} {place : Place} {i : Item} (h : place.all (· == "..") = false) :
    (d.put place i).item? place = some i := by
  simp [item?, put, h]

/-- Elsewhere nothing changes. -/
theorem item?_put_of_ne {d : Disk} {place other : Place} {i : Item} (h : place ≠ other) :
    (d.put place i).item? other = d.item? other := by
  simp [item?, put, h]

/-- One step from a place by a name.  Only from a folder there is a step, even by the name that
stays there. -/
def step (d : Disk) (place : Place) (n : String) : Except Fault Place :=
  match d.item? place with
  | none => .error .missing
  | some (.file _) => .error .throughFile
  | some .folder =>
    if n = "." then .ok place
    else if n = ".." then .ok (up place)
    else if isTooLong n then .error .tooLong
    else if (d.item? (place ++ [n])).isSome then .ok (place ++ [n])
    else .error .missing

/-- The item to which some names lead from the present folder. -/
def walk (d : Disk) (names : List String) : Except Fault Item :=
  (names.foldlM d.step []).bind fun place =>
    match d.item? place with
    | none => .error .missing
    | some i => .ok i

/-- The item to which a path leads.  Nothing is known of what is below the root. -/
def find (d : Disk) (p : Path) : Except Fault Item :=
  (check p).bind fun _ => if p.start = .here then d.walk p.names else bare.walk p.names

/-- The item to which a path leads, if it leads to one.  Here only a path that is too long is
a fault. -/
def look (d : Disk) (p : Path) : Except Fault (Option Item) :=
  match d.find p with
  | .ok i => .ok (some i)
  | .error .tooLong => .error .tooLong
  | .error _ => .ok none

/-- Reads the file to which a path leads. -/
def read (d : Disk) (p : Path) : Except Fault ByteArray :=
  (d.find p).bind fun
    | .file content => .ok content
    | .folder => .error .isFolder

/-- A name of a written path, and the number of bytes up to its end. -/
structure Milestone where
  name : String
  reach : Nat
  deriving DecidableEq, Inhabited

/-- Some names of a written path, the first of which begins after a number of bytes. -/
def milestonesFrom : Nat → List String → List Milestone
  | _, [] => []
  | start, n :: ns => ⟨n, start + n.utf8ByteSize⟩ :: milestonesFrom (start + n.utf8ByteSize + 1) ns

/-- The names of a written path.  Empty names do not count. -/
def milestones (path : String) : List Milestone :=
  (milestonesFrom 0 (Text.splitSlashes path)).filter (·.name ≠ "")

/-- What is wrong with a written path up to a name before it is walked. -/
def Milestone.check (m : Milestone) : Except Fault Unit :=
  if hasNull m.name then .error .nullCharacter
  else if maxPath < m.reach then .error .tooLong
  else .ok ()

/-- One step along a written path. -/
def advance (d : Disk) (place : Place) (m : Milestone) : Except Fault Place :=
  m.check.bind fun _ => d.step place m.name

/-- How many names at the end of a written path do not lead to anything. -/
def pending (d : Disk) : Place → List Milestone → Nat
  | _, [] => 0
  | place, m :: ms =>
    match d.advance place m with
    | .ok next => d.pending next ms
    | .error _ => ms.length + 1

/-- Work on the disk that may fail.  What was done before a fault stays done. -/
abbrev Work := ExceptT Fault (StateM Disk)

/-- One step along a written path, to a folder that is made if nothing is there. -/
def enter (place : Place) (m : Milestone) : Work Place := do
  match (← get).advance place m with
  | .ok next => pure next
  | .error .missing => do
    modify (·.put (place ++ [m.name]) .folder)
    pure (place ++ [m.name])
  | .error f => throw f

/-- Makes the folder at the end of a written path, and those on the way.  There is room for a
number of folders to be made at once. -/
def makeFolder (room : Nat) (ms : List Milestone) : Work Place := do
  if room < (← get).pending [] ms then throw .tooDeep
  let place ← ms.foldlM enter []
  if ((← get).item? place).any Item.isFile then throw .isFile
  pure place

/-- Writes a file in a folder. -/
def writeIn (place : Place) (m : Milestone) (content : ByteArray) : Work Unit := do
  ExceptT.mk (pure m.check)
  if m.name = "." || m.name = ".." then throw .isFolder
  if isTooLong m.name then throw .tooLong
  if ((← get).item? (place ++ [m.name])).any Item.isFolder then throw .isFolder
  modify (·.put (place ++ [m.name]) (.file content))

/-- Writes the file at a written path below the present folder.  First the folders on the way
are made. -/
def write (room : Nat) (path : String) (content : ByteArray) : Work Unit := do
  let place ← makeFolder room (milestones path).dropLast
  match (milestones path).getLast? with
  | none => throw .isFolder
  | some m => writeIn place m content

/-- The folder with the game's data. -/
def dataFolder : Path := ⟨.here, ["game", "data"]⟩

/-- The path to a name in the folder with the game's data. -/
def dataPath (name : String) : Path := Path.ofString (dataFolder.text ++ "/" ++ name)

end Disk

end ModWizard
