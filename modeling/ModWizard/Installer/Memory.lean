import ModWizard.Installer.Info

/-!
# The remembered answers

The answers given in an installation are kept in the settings of the installed mod: for each
question a number, under which its description and its answers are written.  They are read again
when the mod is installed again.  Writing is transcribed from `onInstallationEnd`, reading from
`onInstallationStart`; the keys are those of `RE_DESCRIPTION` and `RE_OPTION`.
-/

namespace ModWizard.Installer

/-- The settings that a plugin keeps for a mod. -/
abbrev Settings := Table String Scalar

/-- The names of the chosen answers, by the descriptions of their questions. -/
abbrev Answers := Table String (List String)

/-- What a key of the settings stands for, with its numbers in some form. -/
inductive Key (α : Type)
  | description (question : α)
  | answer (question place : α)
  deriving DecidableEq, Inhabited

namespace Key

/-- A number in decimal. -/
def digits (n : Nat) : String := String.ofList (Nat.toDigits 10 n)

/-- Whether a key can be written: no number in it has too many digits. -/
def isWritable : Key Nat → Bool
  | description i => Text.isWritable i
  | answer i j => Text.isWritable i && Text.isWritable j

/-- How a key is written. -/
def text : Key Nat → String
  | description i => "select" ++ digits i ++ "-description"
  | answer i j => "select" ++ digits i ++ "-option" ++ digits j

/-- What follows a word at the start of a text. -/
def after? : List Char → List Char → Option (List Char)
  | [], cs => some cs
  | _ :: _, [] => none
  | w :: ws, c :: cs => if w = c then after? ws cs else none

/-- The digits at the start of a text, and what follows them. -/
def digits? (cs : List Char) : Option (List Char × List Char) :=
  match cs.takeWhile Char.isDigit with
  | [] => none
  | ds => some (ds, cs.dropWhile Char.isDigit)

/-- Reads a key, with its numbers as they are written.  What follows it does not count. -/
def ofString? (s : String) : Option (Key (List Char)) :=
  ((after? "select".toList s.toList).bind digits?).bind fun (i, rest) =>
    ((after? "-description".toList rest).map fun _ => description i).or
      (((after? "-option".toList rest).bind digits?).map fun (j, _) => answer i j)

/-- The key with its numbers read, unless one has too many digits. -/
def numbers? : Key (List Char) → Option (Key Nat)
  | description i => (Text.number? i).map description
  | answer i j => (Text.number? i).bind fun i => (Text.number? j).map (answer i)

end Key

/-- The descriptions and the answers found in some settings, by number. -/
structure Found where
  descriptions : Table Nat String
  answers : Table Nat (Table Nat String)

/-- Enters the text found under a key. -/
def Found.enter (f : Found) (text : String) : Key Nat → Found
  | .description i => { f with descriptions := f.descriptions.insert i text }
  | .answer i j =>
    let present := (f.answers.get? i).getD ∅
    { f with answers := f.answers.insert i (present.insert j text) }

/-- Notes what a setting says, unless a number in its key has too many digits. -/
def Found.note? (f : Found) (key : String) (value : Scalar) : Option Found :=
  match Key.ofString? key with
  | some k => k.numbers?.map (f.enter value.toText)
  | none => some f

/-- What some settings say, unless a number in a key has too many digits. -/
def Found.ofSettings? (s : Settings) : Option Found :=
  s.entries.foldlM (fun f e => f.note? e.1 e.2) ⟨∅, ∅⟩

/-- The answers found for a question, in the order of their places. -/
def Found.answersOf (f : Found) (question : Nat) : List String :=
  match f.answers.get? question with
  | none => []
  | some t => (t.entries.mergeSort fun a b => a.1 ≤ b.1).map (·.2)

/-- All answers found, by the descriptions of their questions. -/
def Found.toAnswers (f : Found) : Answers :=
  Table.ofList (f.descriptions.entries.map fun d => (d.2, f.answersOf d.1))

/-- The answers that some settings remember, unless a number in a key has too many digits. -/
def remembered? (s : Settings) : Option Answers := (Found.ofSettings? s).map (·.toAnswers)

/-- The texts that remember some answers, each with its key, in the order in which they are
written. -/
def toSettings (a : Answers) : List (Key Nat × String) :=
  a.entries.zipIdx.flatMap fun x =>
    (.description x.2, x.1.1) :: x.1.2.zipIdx.map fun y => (.answer x.2 y.2, y.1)

end ModWizard.Installer
