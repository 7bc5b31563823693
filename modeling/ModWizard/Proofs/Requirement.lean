import ModWizard.Proofs.Host
import ModWizard.Requirement

/-!
# Two answers about versions

Whether a version is there is asked in two ways: the check of requirements answers yes or no, and a
script is told how the present version stands to the one it names.  Of two texts the answers are the
same, however versions are read and compared (`isMet?_eq_map_standing?`), but they are not given for
the same texts: the game has one version for the check and one for scripts, and the script extender
need not be installed, or there, for a script to be told of it.  So they agree on all versions only
if the game's two versions are at the same place of the order and the extender is installed
(`answers_agree_iff`).
-/

namespace ModWizard

/-! ### The order of versions -/

namespace VersionScheme

variable {S : VersionScheme} {s t : String}

theorem le_refl (S : VersionScheme) (v : S.Value) : S.le v v = true := (S.le_total v v).elim id id

/-- A present version is at least the wanted one if it does not stand below it. -/
theorem standing_nonneg_iff {wanted present : S.Value} :
    0 ≤ S.standing wanted present ↔ S.le wanted present = true := by
  unfold standing
  split
  next h =>
    refine iff_of_true (by decide) ((S.le_total wanted present).resolve_right ?_)
    rwa [Bool.not_eq_true, ← Bool.not_eq_true']
  next =>
    split
    next h =>
      refine iff_of_false (by decide) ?_
      rwa [Bool.not_eq_true, ← Bool.not_eq_true']
    next h =>
      refine iff_of_true (by decide) ?_
      rwa [Bool.not_eq_true', Bool.not_eq_false] at h

/-- Of the same two texts both answers say the same. -/
theorem isMet?_eq_map_standing? (S : VersionScheme) (wanted present : String) :
    S.isMet? wanted present = (S.standing? wanted present).map fun n => decide (0 ≤ n) := by
  unfold isMet? standing?
  cases S.read? wanted with
  | none => rfl
  | some w =>
    cases S.read? present with
    | none => rfl
    | some p =>
      refine congrArg some ?_
      rw [Bool.eq_iff_iff, decide_eq_true_iff]
      exact standing_nonneg_iff.symm

theorem isMet?_eq_some_iff {b : Bool} :
    S.isMet? s t = some b ↔
      ∃ v w, S.read? s = some v ∧ S.read? t = some w ∧ S.le v w = b := by
  simp only [isMet?, Option.bind_eq_bind, Option.bind_eq_some_iff, Option.pure_def,
    Option.some.injEq]
  constructor
  · rintro ⟨v, hv, w, hw, rfl⟩
    exact ⟨v, w, hv, hw, rfl⟩
  · rintro ⟨v, w, hv, hw, rfl⟩
    exact ⟨v, hv, w, hw, rfl⟩

/-- A version that can be read is at least itself. -/
theorem isMet?_self {v : S.Value} (h : S.read? s = some v) : S.isMet? s s = some true :=
  isMet?_eq_some_iff.mpr ⟨v, v, h, h, S.le_refl v⟩

theorem isMet?_self_ne_false : S.isMet? s s ≠ some false := by
  intro h
  obtain ⟨v, _, hv, -⟩ := isMet?_eq_some_iff.mp h
  cases h.symm.trans (isMet?_self hv)

/-- That two texts are read as versions at the same place of the order, or not at all. -/
def SamePlace (S : VersionScheme) (s t : String) : Prop :=
  (S.read? s = none ∧ S.read? t = none) ∨
    ∃ v w, S.read? s = some v ∧ S.read? t = some w ∧ S.le v w = true ∧ S.le w v = true

/-- At the same place, the same versions are met. -/
theorem SamePlace.isMet?_eq (h : S.SamePlace s t) (wanted : String) :
    S.isMet? wanted s = S.isMet? wanted t := by
  obtain ⟨hs, ht⟩ | ⟨v, w, hs, ht, hvw, hwv⟩ := h
  · rw [isMet?, isMet?, hs, ht]
  · unfold isMet?
    rw [hs, ht]
    cases S.read? wanted with
    | none => rfl
    | some u =>
      refine congrArg some ?_
      rw [Bool.eq_iff_iff]
      exact ⟨fun hu => S.le_trans _ _ _ hu hvw, fun hu => S.le_trans _ _ _ hu hwv⟩

/-- Texts of which each meets the other are at the same place. -/
theorem SamePlace.of_isMet?_eq (hs : S.isMet? s s = S.isMet? s t)
    (ht : S.isMet? t s = S.isMet? t t) : S.SamePlace s t := by
  cases hrs : S.read? s with
  | none =>
    cases hrt : S.read? t with
    | none => exact .inl ⟨hrs, hrt⟩
    | some w =>
      rw [isMet?_self hrt] at ht
      obtain ⟨_, _, -, hread, -⟩ := isMet?_eq_some_iff.mp ht
      cases hrs.symm.trans hread
  | some v =>
    rw [isMet?_self hrs] at hs
    obtain ⟨v', w, hv', hw, hvw⟩ := isMet?_eq_some_iff.mp hs.symm
    rw [isMet?_self hw] at ht
    obtain ⟨w', v'', hw', hv'', hwv⟩ := isMet?_eq_some_iff.mp ht
    cases hw.symm.trans hw'
    cases hv'.symm.trans hv''
    exact .inr ⟨v', w, hv', hw, hvw, hwv⟩

end VersionScheme

/-! ### Agreement -/

namespace Requirement

variable {org : Organizer} {v : String}

/-- That the check of requirements says of the game what scripts are told of it: that it is at least
a version if it does not stand below it.  Where one has no answer the other has none. -/
def GameAgrees (org : Organizer) (v : String) : Prop :=
  gameMet? org v = (org.gameStanding? v).map fun n => decide (0 ≤ n)

/-- That the check of requirements says of the script extender what scripts are told of it. -/
def ExtenderAgrees (org : Organizer) (v : String) : Prop :=
  extenderMet? org v = (org.extenderStanding? v).map fun n => decide (0 ≤ n)

instance (org : Organizer) (v : String) : Decidable (GameAgrees org v) :=
  inferInstanceAs (Decidable (_ = _))

instance (org : Organizer) (v : String) : Decidable (ExtenderAgrees org v) :=
  inferInstanceAs (Decidable (_ = _))

theorem met_of_check? {r : Requirement} {c : Check} (h : r.check? org = some c) :
    gameMet? org r.game = some c.game ∧ extenderMet? org r.extender = some c.extender := by
  unfold check? at h
  cases hg : gameMet? org r.game with
  | none => simp [hg] at h
  | some g =>
    cases he : extenderMet? org r.extender with
    | none => simp [hg, he] at h
    | some e =>
      simp only [hg, he] at h
      cases h
      exact ⟨rfl, rfl⟩

/-- The answers about the game agree on a version that is above neither of its two versions, or
above both. -/
theorem gameAgrees_iff (hv : v ≠ "") :
    GameAgrees org v ↔
      org.host.versions.isMet? v org.version = org.host.versions.isMet? v org.gameVersion := by
  rw [GameAgrees, gameMet?, if_neg hv, Organizer.gameStanding?,
    ← VersionScheme.isMet?_eq_map_standing?]

/-- The answers about the extender agree on a version if it is installed, or below that version. -/
theorem extenderAgrees_iff (hv : v ≠ "") :
    ExtenderAgrees org v ↔ ∃ e, org.extender = some e ∧
      (e.installed = true ∨ org.host.versions.isMet? v e.version = some false) := by
  rw [ExtenderAgrees, extenderMet?, if_neg hv, Organizer.extenderStanding?]
  cases org.extender with
  | none => simp
  | some e =>
    simp only [Option.some.injEq, exists_eq_left', ← VersionScheme.isMet?_eq_map_standing?]
    by_cases he : e.installed = true
    · simp [he]
    · simp [he, eq_comm]

/-- Each of the game's two versions is one that can be asked for. -/
theorem forall_gameAgrees_iff (hv : org.version ≠ "") (hg : org.gameVersion ≠ "") :
    (∀ v, v ≠ "" → GameAgrees org v) ↔
      org.host.versions.SamePlace org.version org.gameVersion := by
  constructor
  · intro h
    exact .of_isMet?_eq ((gameAgrees_iff hv).mp (h _ hv)) ((gameAgrees_iff hg).mp (h _ hg))
  · intro h v hv
    exact (gameAgrees_iff hv).mpr (h.isMet?_eq v)

/-- The version of the extender is one that can be asked for, and the extender is not below it. -/
theorem forall_extenderAgrees_iff (hv : org.gameVersion ≠ "")
    (he : ∀ e, org.extender = some e → e.version ≠ "") :
    (∀ v, v ≠ "" → ExtenderAgrees org v) ↔ ∃ e, org.extender = some e ∧ e.installed = true := by
  constructor
  · intro h
    obtain ⟨e, hsome, -⟩ := (extenderAgrees_iff hv).mp (h _ hv)
    have hown := he e hsome
    obtain ⟨e', hsome', hin | hbelow⟩ := (extenderAgrees_iff hown).mp (h _ hown)
    · exact ⟨e', hsome', hin⟩
    · cases hsome.symm.trans hsome'
      cases VersionScheme.isMet?_self_ne_false hbelow
  · rintro ⟨e, hsome, hin⟩ v hv
    exact (extenderAgrees_iff hv).mpr ⟨e, hsome, .inl hin⟩

namespace Sample

/-- The organizer of a game, with its version for the check and the one for scripts. -/
def organizer (version gameVersion : String) (extender : Option Extender) : Organizer :=
  ⟨.plain 9, "Game", version, gameVersion, extender, none, [], [], ∅, ∅⟩

end Sample

/-- What a check finds is the answer about each part.  For every version the answers about the game
agree if it is above neither of the game's two versions or above both, and those about the extender
if that is there and is installed or below the version.  On all versions they agree, where no
version of the organizer is empty, if the game's two versions are at the same place of the order and
the extender is installed. -/
theorem answers_agree_iff (org : Organizer) :
    (∀ r c, check? org r = some c →
      gameMet? org r.game = some c.game ∧ extenderMet? org r.extender = some c.extender) ∧
    (∀ v, v ≠ "" →
      (GameAgrees org v ↔
        org.host.versions.isMet? v org.version = org.host.versions.isMet? v org.gameVersion) ∧
      (ExtenderAgrees org v ↔ ∃ e, org.extender = some e ∧
        (e.installed = true ∨ org.host.versions.isMet? v e.version = some false))) ∧
    (org.version ≠ "" → org.gameVersion ≠ "" → (∀ e, org.extender = some e → e.version ≠ "") →
      ((∀ v, v ≠ "" → GameAgrees org v ∧ ExtenderAgrees org v) ↔
        org.host.versions.SamePlace org.version org.gameVersion ∧
          ∃ e, org.extender = some e ∧ e.installed = true)) := by
  refine ⟨fun r c h => met_of_check? h, fun v hv => ⟨gameAgrees_iff hv, extenderAgrees_iff hv⟩,
    fun hv hg he => ?_⟩
  rw [← forall_gameAgrees_iff hv hg, ← forall_extenderAgrees_iff hg he]
  exact ⟨fun h => ⟨fun v hv => (h v hv).1, fun v hv => (h v hv).2⟩,
    fun h v hv => ⟨h.1 v hv, h.2 v hv⟩⟩

open Sample in
/-- Two versions of a game that are written differently, and an extender that is installed. -/
theorem answers_agree_installed :
    GameAgrees (organizer "1.6.0" "1.06" (some ⟨true, "2.0"⟩)) "1.6.0.1" ∧
      ExtenderAgrees (organizer "1.6.0" "1.06" (some ⟨true, "2.0"⟩)) "1.9.9" ∧
      ∀ v, v ≠ "" → GameAgrees (organizer "1.6.0" "1.06" (some ⟨true, "2.0"⟩)) v ∧
        ExtenderAgrees (organizer "1.6.0" "1.06" (some ⟨true, "2.0"⟩)) v := by
  have hplace : (VersionScheme.dotted).SamePlace "1.6.0" "1.06" :=
    .of_isMet?_eq (by decide) (by decide)
  have h := ((answers_agree_iff (organizer "1.6.0" "1.06" (some ⟨true, "2.0"⟩))).2.2
    (by decide) (by decide) (by rintro _ ⟨⟩; decide)).mpr ⟨hplace, _, rfl, rfl⟩
  exact ⟨(h _ (by decide)).1, (h _ (by decide)).2, h⟩

open Sample in
/-- The check is made with a version of the game that scripts are not told; and a script is told of
an extender that it is new enough though it is not there, or not installed. -/
theorem answers_differ :
    ¬ GameAgrees (organizer "1.0" "1.6" none) "1.6" ∧
      check? (organizer "1.0" "1.6" none) ⟨"1.6", "", "", ""⟩ = some ⟨false, true, true, true⟩ ∧
      (organizer "1.0" "1.6" none).gameStanding? "1.6" = some 0 ∧
    ¬ ExtenderAgrees (organizer "1.0" "1.0" none) "2.0" ∧
      check? (organizer "1.0" "1.0" none) ⟨"", "2.0", "", ""⟩ = some ⟨true, false, true, true⟩ ∧
      (organizer "1.0" "1.0" none).extenderStanding? "2.0" = some 1 ∧
    ¬ ExtenderAgrees (organizer "1.0" "1.0" (some ⟨false, "2.0"⟩)) "2.0" ∧
      check? (organizer "1.0" "1.0" (some ⟨false, "2.0"⟩)) ⟨"", "2.0", "", ""⟩ =
        some ⟨true, false, true, true⟩ ∧
      (organizer "1.0" "1.0" (some ⟨false, "2.0"⟩)).extenderStanding? "2.0" = some 0 := by
  decide

end Requirement

end ModWizard
