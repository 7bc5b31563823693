import ModWizard.Disk
import ModWizard.Text.Lines
import ModWizard.Tweak.Assignment

/-!
# Merging tweaks into a file of console commands

Every line that assigns a setting for which an edit waits is replaced by the edit; every
line that assigns a disabled setting is marked.  Edits that found no line are written
below.

Transcribed is `merge_obscript_ini_tweaks`: its dictionaries are `edits` and `disabled`, the body of
its first loop is `mergeLine`, and its second loop is `remaining`.  The lines below the file are
added once for each section there, not for each edit, and `remaining` does the same.
-/

namespace ModWizard.Tweak.Merge

/-- Why a merge fails. -/
inductive Fault
  /-- the file cannot be read -/
  | unreadable (f : Disk.Fault)
  /-- the file is not a text -/
  | notText
  /-- there is no line to repeat -/
  | noLine
  deriving DecidableEq, Inhabited

/-- Entries by section and setting. -/
abbrev Index (α : Type) := Table String (Table String α)

variable {α : Type}

/-- The entry of a setting. -/
def Index.find? (x : Index α) (key setting : String) : Option α :=
  (x.get? key).bind (·.get? setting)

/-- Enters something under a section and a setting.  Sections are kept under their names in
small letters; a section not present under its name as written begins anew. -/
def Index.add (x : Index α) (sectionName setting : String) (a : α) : Index α :=
  let key := Text.lower sectionName
  let present := if x.contains sectionName then (x.get? key).getD ∅ else ∅
  x.insert key (present.insert setting a)

/-- Removes the entry of a setting; its section stays. -/
def Index.drop (x : Index α) (key setting : String) : Index α :=
  match x.get? key with
  | some t => x.insert key (t.erase setting)
  | none => x

/-- The edits, by section and setting. -/
def edits (ts : List Tweak) : Index Edit :=
  (ts.filterMap edit?).foldl (fun x e => x.add e.sectionName e.setting e) ∅

/-- The section and setting of a tweak that disables a setting. -/
def disabled? : Tweak → Option (String × String)
  | .edit _ => none
  | .disable s t => some (s, t)

/-- The disabled settings, by section. -/
def disabled (ts : List Tweak) : Index Unit :=
  (ts.filterMap disabled?).foldl (fun x d => x.add d.1 d.2 ()) ∅

/-- A command that assigns a setting. -/
def command (k : Keyword) (setting value : String) : String :=
  match k with
  | .set => "set " ++ setting ++ " to " ++ value
  | .setGS => "setGS " ++ setting ++ " " ++ value
  | .setNumericGameSetting => "SetNumericGameSetting " ++ setting ++ " " ++ value

/-- The line of an edit that takes the place of an assignment. -/
def replacement (a : Assignment) (e : Edit) : String :=
  command a.keyword a.setting e.value.toText ++ "  ; " ++
    (match e.remark with
      | some c => c ++ " "
      | none => "") ++
    "(set by MO2 via Wizard, was " ++ a.value ++ ")"

/-- A line of the file with the waiting edits: the line to write, and the edits that wait
after it. -/
def mergeLine (off : Index Unit) (waiting : Index Edit) (l : Line) : String × Index Edit :=
  match l.assignment with
  | none => (l.text, waiting)
  | some a =>
    match waiting.find? a.keyword.key a.setting with
    | some e => (replacement a e, waiting.drop a.keyword.key a.setting)
    | none =>
      if !l.disabled && (off.find? a.keyword.key a.setting).isSome then (";-" ++ l.text, waiting)
      else (l.text, waiting)

/-- The lines of the file with the waiting edits. -/
def mergeLines (off : Index Unit) : Index Edit → List Line → List String × Index Edit
  | waiting, [] => ([], waiting)
  | waiting, l :: ls =>
    let (text, waiting) := mergeLine off waiting l
    let (texts, waiting) := mergeLines off waiting ls
    (text :: texts, waiting)

/-- The line of an edit that found no line. -/
def newLine (e : Edit) : String :=
  e.sectionName ++ " " ++ e.setting ++ (if Text.lower e.sectionName = "set" then " to " else " ") ++
    e.value.toText ++ "  ; " ++
    match e.remark with
    | some c => c ++ " (set by MO2 via Wizard)"
    | none => "(set by MO2 via Wizard)"

/-- The lines below the file, one for each section: its last waiting edit, or the line
before once more. -/
def remaining : Option String → List (Table String Edit) → Except Fault (List String)
  | _, [] => .ok []
  | last, t :: ts =>
    match (t.values.getLast?.map newLine).or last with
    | none => .error .noLine
    | some l => (remaining (some l) ts).map (l :: ·)

/-- Merges tweaks into the lines of a file. -/
def mergeInto (ts : List Tweak) (ls : List Line) : Except Fault (List String) :=
  let (texts, waiting) := mergeLines (disabled ts) (edits ts) ls
  (remaining texts.getLast? waiting.values).map (texts ++ ·)

/-- The lines of a file of console commands. -/
def fileLines (content : String) : List Line := (Text.lines content).map Line.ofChars

/-- Reads a file as a text.  The encoding is taken to be UTF-8, whatever the system's own is. -/
def readText (disk : Disk) (file : Path) : Except Fault String :=
  match disk.read file with
  | .error f => .error (.unreadable f)
  | .ok bytes =>
    match String.fromUTF8? bytes with
    | none => .error .notText
    | some s => .ok s

/-- The text of a file of console commands after the merge. -/
def render (ts : List Tweak) (disk : Disk) (file : Path) : Except Fault String :=
  (readText disk file).bind fun content => (mergeInto ts (fileLines content)).map Text.joinLines

end ModWizard.Tweak.Merge
