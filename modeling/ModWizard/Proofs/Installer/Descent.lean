import Mathlib.Logic.Relation
import ModWizard.Proofs.Installer.Support
import ModWizard.Proofs.Installer.Wrapping

/-!
# The way down to the base

The search for the base goes down from the archive as long as there is one way to go: from a folder
without the script to its only entry, if that is a folder (`Base.Leads`).  A step leaves what is
found (`Base.Leads.baseBelow?_eq`), so it is found from every folder on the way, and the base is the
first of them that holds the script (`base?_eq_some_iff`).  Folders around the archive only make the
way longer (`base?_wrap`).
-/

namespace ModWizard.Installer

open Relation (ReflTransGen TransGen)

variable {t : Tree} {b c : Base}

/-- That a folder holds the script: directly in it is a file of that name, in any letter case. -/
def HasScript (t : Tree) : Prop := ∃ e ∈ t.entries, e.isFile ∧ e.isNamed scriptName

/-! ### Steps down -/

/-- A step down: from a folder without the script to its only entry, if that is a folder. -/
def Base.Leads (b c : Base) : Prop :=
  ¬ HasScript b.tree ∧ ∃ n, b.tree.entries = [.folder n c.tree] ∧ c.above = b.above ++ [n]

theorem Base.Leads.baseBelow?_eq (h : b.Leads c) :
    baseBelow? b.above b.tree = baseBelow? c.above c.tree := by
  obtain ⟨-, n, htree, habove⟩ := h
  have hb : b.tree = .folder n c.tree .nil := by
    rw [← Tree.ofEntries_entries b.tree, htree]
    rfl
  rw [hb, habove, baseBelow?_folder]

theorem leads_folder (above : List String) (n : String) (inner : Tree) :
    Base.Leads ⟨above, .folder n inner .nil⟩ ⟨above ++ [n], inner⟩ := by
  refine ⟨?_, n, rfl, rfl⟩
  rintro ⟨e, he, hfile, -⟩
  cases List.mem_singleton.mp he
  cases hfile

/-- From a folder that holds the script, or whose content is not one folder, there is no step. -/
theorem not_leads {above : List String} (h : ∀ n inner, t = .folder n inner .nil → False) :
    ¬ Base.Leads ⟨above, t⟩ c := by
  rintro ⟨-, n, htree, -⟩
  refine h n c.tree ?_
  rw [← Tree.ofEntries_entries t, htree]
  rfl

/-! ### The way -/

/-- That a folder is on the way down from an archive. -/
def OnWay (t : Tree) (b : Base) : Prop := ReflTransGen Base.Leads ⟨[], t⟩ b

theorem OnWay.base?_eq (h : OnWay t b) : base? t = baseBelow? b.above b.tree := by
  induction h with
  | refl => rfl
  | tail _ hstep ih => exact ih.trans hstep.baseBelow?_eq

/-- What is found below some names was on the way. -/
theorem reflTransGen_of_baseBelow? {above : List String} (h : baseBelow? above t = some b) :
    ReflTransGen Base.Leads ⟨above, t⟩ b := by
  fun_induction baseBelow? above t with
  | case1 t above hscript =>
    cases h
    exact .refl
  | case2 above n inner hscript ih => exact (ih h).head (leads_folder above n inner)
  | case3 => cases h

/-- Every way comes to an end. -/
theorem exists_reflTransGen_end (above : List String) (t : Tree) :
    ∃ b, ReflTransGen Base.Leads ⟨above, t⟩ b ∧ ∀ c, ¬ b.Leads c := by
  fun_induction baseBelow? above t with
  | case1 t above hscript =>
    exact ⟨_, .refl, fun c hc => hc.1 (holdsScript_iff.mp hscript)⟩
  | case2 above n inner hscript ih =>
    obtain ⟨b, hb, hend⟩ := ih
    exact ⟨b, hb.head (leads_folder above n inner), hend⟩
  | case3 t above hscript hone => exact ⟨_, .refl, fun c => not_leads hone⟩

/-! ### What is found on it -/

/-- That a folder is the first on the way down from an archive that holds the script. -/
structure IsFirst (t : Tree) (b : Base) : Prop where
  onWay : OnWay t b
  script : HasScript b.tree
  first : ∀ c, OnWay t c → TransGen Base.Leads c b → ¬ HasScript c.tree

/-- That the way down from an archive ends without the script. -/
structure EndsWithout (t : Tree) : Prop where
  ends : ∃ b, OnWay t b ∧ ∀ c, ¬ b.Leads c
  without : ∀ c, OnWay t c → ¬ HasScript c.tree

theorem OnWay.base?_eq_some (h : OnWay t b) (hscript : HasScript b.tree) : base? t = some b := by
  rw [h.base?_eq]
  exact baseBelow?_of_holdsScript (holdsScript_iff.mpr hscript)

theorem base?_eq_some_iff : base? t = some b ↔ IsFirst t b := by
  constructor
  · intro h
    refine ⟨reflTransGen_of_baseBelow? h, holdsScript_iff.mp (holdsScript_of_baseBelow? h),
      fun c _ hc => ?_⟩
    obtain ⟨d, hstep, -⟩ := TransGen.head'_iff.mp hc
    exact hstep.1
  · intro h
    exact h.onWay.base?_eq_some h.script

theorem base?_eq_none_iff : base? t = none ↔ EndsWithout t := by
  constructor
  · intro h
    refine ⟨exists_reflTransGen_end [] t, fun c hc hscript => ?_⟩
    cases h.symm.trans (hc.base?_eq_some hscript)
  · intro h
    cases hb : base? t with
    | none => rfl
    | some b =>
      have hfirst := base?_eq_some_iff.mp hb
      exact absurd hfirst.script (h.without b hfirst.onWay)

/-! ### Folders around the archive -/

/-- Further down, the same folder is found below more names. -/
theorem baseBelow?_append (ws above : List String) (t : Tree) :
    baseBelow? (ws ++ above) t = (baseBelow? above t).map fun b => ⟨ws ++ b.above, b.tree⟩ := by
  fun_induction baseBelow? above t with
  | case1 t above hscript => exact baseBelow?_of_holdsScript hscript
  | case2 above n inner hscript ih =>
    rw [baseBelow?_folder, List.append_assoc]
    exact ih
  | case3 t above hscript hone =>
    unfold baseBelow?
    rw [if_neg hscript]
    split
    next n inner => exact (hone n inner rfl).elim
    next => rfl

theorem base?_wrap (t : Tree) (ws : List String) :
    base? (t.wrap ws) = (base? t).map fun b => ⟨ws ++ b.above, b.tree⟩ := by
  have h := baseBelow?_append ws [] t
  rw [List.append_nil] at h
  rw [base?, baseBelow?_wrap, List.nil_append, h]
  rfl

theorem isSupported_wrap (org : Organizer) (t : Tree) (ws : List String) :
    isSupported org (t.wrap ws) = isSupported org t := by
  unfold isSupported
  rw [base?_wrap]
  cases base? t with
  | none => rfl
  | some b => rfl

/-- The base of an archive is the first folder on the way down that holds the script, and there is
none exactly if the way ends without the script.  So any folders may stand around the archive: the
base has the same content, and the installer takes the archive or not as before. -/
theorem base_first_on_way (org : Organizer) (t : Tree) :
    (∀ b, base? t = some b ↔ IsFirst t b) ∧ (base? t = none ↔ EndsWithout t) ∧
    ∀ ws, base? (t.wrap ws) = ((base? t).map fun b => ⟨ws ++ b.above, b.tree⟩) ∧
      isSupported org (t.wrap ws) = isSupported org t :=
  ⟨fun _ => base?_eq_some_iff, base?_eq_none_iff,
    fun ws => ⟨base?_wrap t ws, isSupported_wrap org t ws⟩⟩

/-- A folder of the script's name is gone through, and the file in it is found in any letter
case. -/
example : base? (.folder "Mod" (.folder "wizard.txt" (.file "Wizard.TXT" none .nil) .nil) .nil) =
    some ⟨["Mod", "wizard.txt"], .file "Wizard.TXT" none .nil⟩ := by decide

end ModWizard.Installer
