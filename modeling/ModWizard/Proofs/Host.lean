import ModWizard.Organizer
import ModWizard.Proofs.Text

/-!
# Hosts

Where the virtual data folder is searched, a host is assumed to take patterns as they are usually
taken: a star stands for any text, and characters without a meaning of their own for themselves, in
any letter case (`Host.Globs`).  Nothing is assumed of the other characters of patterns, for which
there are several conventions.

All that is assumed of hosts can be met: `Host.plain` has dotted versions, patterns with stars,
question marks and sets of characters (`globs_plain`), and tells plugins by their endings.
-/

namespace ModWizard

open Text (sameLetters sameLetters_iff)

/-! ### Patterns -/

/-- The ways to split a list in two. -/
def splits {α : Type} : List α → List (List α × List α)
  | [] => [([], [])]
  | a :: as => ([], a :: as) :: (splits as).map fun s => (a :: s.1, s.2)

theorem mem_splits {α : Type} {as : List α} {s : List α × List α} :
    s ∈ splits as ↔ as = s.1 ++ s.2 := by
  induction as generalizing s with
  | nil =>
    obtain ⟨before, after⟩ := s
    simp [splits, eq_comm]
  | cons a as ih =>
    obtain ⟨before, after⟩ := s
    cases before with
    | nil => simp [splits, eq_comm]
    | cons b before =>
      simp only [splits, List.mem_cons, Prod.mk.injEq, List.mem_map, Prod.exists, ih]
      constructor
      · rintro (⟨⟨⟩, -⟩ | ⟨before', after', rfl, heq, rfl⟩)
        cases heq
        rfl
      · intro h
        cases h
        exact .inr ⟨before, after, rfl, rfl, rfl⟩

/-- Whether a character has no meaning of its own in patterns. -/
def Text.isLiteral (c : Char) : Bool := !(['*', '?', '[', ']', '{', '}', '\\'].contains c)

/-- Whether a text ends with another, in any letter case. -/
def Text.endsWith (s ending : String) : Bool :=
  (splits s.toList).any fun x => sameLetters (String.ofList x.2) ending

/-- That a host takes patterns with stars, in any letter case. -/
structure Host.Globs (host : Host) : Prop where
  /-- a star stands for any text -/
  star : ∀ pattern name, host.isMatch ("*" ++ pattern) name = true ↔
    ∃ before after, name = before ++ after ∧ host.isMatch pattern after = true
  /-- a text of literal characters stands for itself -/
  literal : ∀ pattern name, pattern.toList.all Text.isLiteral = true →
    host.isMatch pattern name = sameLetters name pattern

/-- Texts are split as their characters are. -/
theorem Text.exists_append_iff {s : String} {P : List Char → Prop} :
    (∃ before after, s = before ++ after ∧ P after.toList) ↔
      ∃ before after, s.toList = before ++ after ∧ P after := by
  constructor
  · rintro ⟨before, after, rfl, h⟩
    exact ⟨before.toList, after.toList, String.toList_append, h⟩
  · rintro ⟨before, after, hs, h⟩
    refine ⟨String.ofList before, String.ofList after, ?_, ?_⟩
    · rw [← String.ofList_append, ← hs, String.ofList_toList]
    · rwa [String.toList_ofList]

theorem Text.endsWith_iff {s ending : String} :
    Text.endsWith s ending = true ↔
      ∃ before after, s = before ++ after ∧ sameLetters after ending = true := by
  have hsplit := Text.exists_append_iff (s := s)
    (P := fun cs => sameLetters (String.ofList cs) ending = true)
  simp only [String.ofList_toList] at hsplit
  simp only [Text.endsWith, List.any_eq_true, Prod.exists, mem_splits, hsplit]

/-- Behind a star, a literal text is found at the end of names. -/
theorem Host.Globs.isMatch_star {host : Host} (h : host.Globs) {ending : String}
    (hending : ending.toList.all Text.isLiteral = true) (name : String) :
    host.isMatch ("*" ++ ending) name = Text.endsWith name ending := by
  rw [Bool.eq_iff_iff, h.star, Text.endsWith_iff]
  simp only [h.literal ending _ hending]

/-! ### A host -/

namespace Glob

/-- A piece of a pattern. -/
inductive Piece
  /-- any text -/
  | star
  /-- any character -/
  | one
  /-- one of some characters -/
  | oneOf (cs : List Char)
  /-- a text, in any letter case -/
  | text (cs : List Char)
  /-- the bracket that closes a set -/
  | close

/-- Whether a piece stands for a text. -/
def Piece.isMatch : Piece → List Char → Bool
  | star, _ => true
  | one, cs => cs.length == 1
  | oneOf set, cs => set.any fun c => sameLetters (String.ofList cs) (String.ofList [c])
  | text t, cs => sameLetters (String.ofList cs) (String.ofList t)
  | close, cs => cs == [']']

/-- Whether pieces, one after the other, stand for a text. -/
def matchPieces : List Piece → List Char → Bool
  | [], cs => cs.isEmpty
  | p :: ps, cs => (splits cs).any fun s => p.isMatch s.1 && matchPieces ps s.2

/-- A bracket opens a set if a text and the closing bracket follow it. -/
def openSet : List Piece → List Piece
  | .text cs :: .close :: ps => .oneOf cs :: ps
  | ps => .text ['['] :: ps

/-- A character and the text behind it make one text. -/
def addChar (c : Char) : List Piece → List Piece
  | .text cs :: ps => .text (c :: cs) :: ps
  | ps => .text [c] :: ps

/-- The pieces of a pattern. -/
def pieces : List Char → List Piece
  | [] => []
  | '*' :: cs => .star :: pieces cs
  | '?' :: cs => .one :: pieces cs
  | ']' :: cs => .close :: pieces cs
  | '[' :: cs => openSet (pieces cs)
  | c :: cs => addChar c (pieces cs)

/-- Whether a name matches a pattern. -/
def isMatch (pattern name : String) : Bool := matchPieces (pieces pattern.toList) name.toList

theorem matchPieces_cons {p : Piece} {ps : List Piece} {cs : List Char} :
    matchPieces (p :: ps) cs = true ↔
      ∃ before after, cs = before ++ after ∧ p.isMatch before = true ∧
        matchPieces ps after = true := by
  simp only [matchPieces, List.any_eq_true, Prod.exists, mem_splits, Bool.and_eq_true]

theorem pieces_literal {c : Char} {cs : List Char} (h : (c :: cs).all Text.isLiteral = true) :
    pieces (c :: cs) = [.text (c :: cs)] := by
  rw [List.all_cons, Bool.and_eq_true] at h
  have hc : pieces (c :: cs) = addChar c (pieces cs) := by
    rw [pieces] <;> rintro rfl <;> exact absurd h.1 (by decide)
  rw [hc]
  cases cs with
  | nil => rfl
  | cons d ds => rw [pieces_literal h.2, addChar]

theorem isMatch_star (pattern name : String) :
    isMatch ("*" ++ pattern) name = true ↔
      ∃ before after, name = before ++ after ∧ isMatch pattern after = true := by
  have hpieces : pieces ("*" ++ pattern).toList = .star :: pieces pattern.toList := by
    rw [String.toList_append]
    rfl
  have hsplit := Text.exists_append_iff (s := name)
    (P := fun cs => matchPieces (pieces pattern.toList) cs = true)
  simp only [isMatch, hpieces, matchPieces_cons, Piece.isMatch, true_and, hsplit]

theorem isMatch_literal {pattern : String} (h : pattern.toList.all Text.isLiteral = true)
    (name : String) : isMatch pattern name = sameLetters name pattern := by
  rw [Bool.eq_iff_iff, isMatch]
  cases hcs : pattern.toList with
  | nil =>
    obtain rfl : pattern = "" := String.toList_eq_nil_iff.mp hcs
    have hempty : Text.lower "" = "" := rfl
    rw [sameLetters_iff, hempty, Text.lower_eq_empty_iff, ← String.toList_eq_nil_iff]
    exact List.isEmpty_iff
  | cons c cs =>
    rw [hcs] at h
    rw [pieces_literal h, matchPieces_cons]
    have hpattern : String.ofList (c :: cs) = pattern := by rw [← hcs, String.ofList_toList]
    constructor
    · rintro ⟨before, after, hname, hbefore, hafter⟩
      rw [List.isEmpty_iff.mp hafter, List.append_nil] at hname
      rw [Piece.isMatch, ← hname, String.ofList_toList, hpattern] at hbefore
      exact hbefore
    · intro hname
      refine ⟨name.toList, [], (List.append_nil _).symm, ?_, rfl⟩
      rw [Piece.isMatch, String.ofList_toList, hpattern]
      exact hname

end Glob

/-- The endings of plugins. -/
def pluginEndings : List String := [".esp", ".esm", ".esl"]

/-- Whether a name is that of a plugin. -/
def isPlugin (name : String) : Bool :=
  pluginEndings.any fun s => s.toList.isSuffixOf (Text.lower name).toList

/-- A host with dotted versions, in which plugins are known by their endings.  All that is done one
inside the other can be done a number of times. -/
def Host.plain (room : Nat) : Host where
  versions := .dotted
  isMatch := Glob.isMatch
  pluginsFor _ files := (files.map Text.lastName).filter isPlugin
  pluginsFor_congr h := by rw [h]
  openingRoom := room
  goingRoom := room
  folderRoom := room

theorem globs_plain (room : Nat) : (Host.plain room).Globs where
  star := Glob.isMatch_star
  literal _ name h := Glob.isMatch_literal h name

end ModWizard
