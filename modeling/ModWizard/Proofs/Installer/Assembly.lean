import ModWizard.Proofs.Installer.TweakFiles
import ModWizard.Proofs.Lifting

/-!
# Assembling from files that were extracted elsewhere

A mod is assembled from the base of an archive and the files that were extracted.  An extracted file
is looked at once: when tweaks are merged into it, its content is read from where it was extracted
to.  So from the same base, and from extractions in which the same files give the same merges, the
same mod is assembled and the same is said and written (`assemble_congr`).  What can go wrong then
is not the extraction any more (`failsOnly_assemble`).
-/

namespace ModWizard.Installer

variable {α γ : Type}

/-! ### Work -/

/-- That all faults of some work pass a test. -/
def Work.FailsOnly (P : Fault → Prop) (w : Work α) : Prop :=
  ∀ l f l', w.run.run l = (.error f, l') → P f

namespace Work

variable {P : Fault → Prop}

theorem mk_ok_bind (a : α) (f : α → Work γ) :
    (ExceptT.mk (pure (.ok a)) : Work α) >>= f = f a := rfl

theorem mk_error_bind (e : Fault) (f : α → Work γ) :
    (ExceptT.mk (pure (.error e)) : Work α) >>= f = throw e := rfl

theorem failsOnly_pure (a : α) : FailsOnly P (pure a : Work α) := fun _ _ _ h => by cases h

theorem failsOnly_mk {x : Except Fault α} (hx : ∀ f, x = .error f → P f) :
    FailsOnly P (ExceptT.mk (pure x)) := fun _ f _ h => hx f (Prod.mk.inj h).1

theorem FailsOnly.bind {w : Work α} {f : α → Work γ} (h : FailsOnly P w)
    (hf : ∀ a, FailsOnly P (f a)) : FailsOnly P (w >>= f) := by
  intro l e l' hrun
  rw [Work.run_bind] at hrun
  rcases hw : w.run.run l with ⟨e' | a, k⟩
  · rw [hw] at hrun
    cases hrun
    exact h l e _ hw
  · rw [hw] at hrun
    exact hf a k e l' hrun

theorem failsOnly_ofTree {x : Except Tree.Fault Tree} (hP : ∀ f, P (.tree f)) :
    FailsOnly P (ofTree x) := by
  cases x with
  | error f => exact failsOnly_mk fun g hg => by cases hg; exact hP f
  | ok t => exact failsOnly_pure t

end Work

/-! ### Extractions that are alike -/

variable {x x' : Extracted} {t : Tree} {disk : Disk}

/-- That the same files are looked up in two extractions, and tweaks are merged alike into each. -/
def MergesAlike (x x' : Extracted) : Prop :=
  ∀ e, Option.Rel (fun o o' => ∀ ts, Tweak.merge ts x'.disk (Path.ofString o') =
    Tweak.merge ts x.disk (Path.ofString o)) (x.path? e) (x'.path? e)

section

variable (h : MergesAlike x x')

include h

/-- The same is written for a tweak file, from whichever extraction it is merged. -/
theorem writeTweak_congr (name : String) (ts : List Tweak) (t : Tree) :
    writeTweak x' name ts t = writeTweak x name ts t := by
  rw [writeTweak, writeTweak, destination, destination]
  cases solidAt? t name with
  | none =>
    -- a new file is not looked up, and its text is not read
    cases (Path.ofString name).head? with
    | none => simp only [Work.mk_error_bind]
    | some h => simp only [Work.mk_ok_bind, writeTo, tweakText]
  | some e =>
    obtain ⟨hnone, hnone'⟩ | ⟨o, o', ho, ho', hmerge⟩ := rel_cases (h e)
    · simp only [hnone, hnone', Work.mk_error_bind]
    · have htext : tweakText x'.disk (some o') ts = tweakText x.disk (some o) ts := by
        rw [tweakText, tweakText, hmerge]
      have hwrite : writeTo x'.disk ⟨some o', name⟩ ts t = writeTo x.disk ⟨some o, name⟩ ts t := by
        simp only [writeTo, htext]
      simp only [ho, ho', Work.mk_ok_bind, hwrite]

theorem writeTweaks_congr (fs : List (String × List Tweak)) (t : Tree) :
    writeTweaks x' fs t = writeTweaks x fs t := by
  induction fs generalizing t with
  | nil => rfl
  | cons f fs ih =>
    simp only [writeTweaks, writeTweak_congr h, ih]

/-- The same mod is assembled from extractions that are alike. -/
theorem assemble_congr (base : Tree) (plan : Plan) :
    assemble x' base plan = assemble x base plan := by
  simp only [assemble, writeTweaks_congr h]

end

/-! ### Faults -/

/-- That a fault is not one of extracting files. -/
def Fault.IsLate (f : Fault) : Prop := ∀ g, f ≠ .disk g

open Work (FailsOnly failsOnly_pure failsOnly_mk failsOnly_ofTree)

theorem failsOnly_mergePackages (ns : List String) (base t : Tree) :
    FailsOnly Fault.IsLate (mergePackages ns base t) := by
  induction ns generalizing base t with
  | nil => exact failsOnly_pure t
  | cons n ns ih =>
    rw [mergePackages]
    split
    · exact ih _ _
    · exact .bind (fun _ _ _ h => by cases h) fun _ => ih _ _

theorem failsOnly_renameAll (rs : List (String × String)) (t : Tree) :
    FailsOnly Fault.IsLate (renameAll rs t) := by
  induction rs generalizing t with
  | nil => exact failsOnly_pure t
  | cons r rs ih =>
    rw [renameAll]
    split
    · exact (failsOnly_ofTree fun _ _ h => by cases h).bind fun _ => ih _
    · exact .bind (fun _ _ _ h => by cases h) fun _ => ih _

theorem isLate_of_destination {name : String} {f : Fault} (h : destination x t name = .error f) :
    f.IsLate := by
  rintro g rfl
  unfold destination at h
  split at h
  · split at h <;> cases h
  · split at h <;> cases h

theorem isLate_of_tweakText {o : Option String} {ts : List Tweak} {f : Fault}
    (h : tweakText disk o ts = .error f) : f.IsLate := by
  rintro g rfl
  unfold tweakText at h
  split at h
  · cases h
  · split at h <;> cases h

theorem failsOnly_writeTo (d : Destination) (ts : List Tweak) (t : Tree) :
    FailsOnly Fault.IsLate (writeTo disk d ts t) := by
  refine (failsOnly_ofTree fun _ _ h => by cases h).bind fun u => ?_
  simp only
  cases hm : tweakText disk d.origin ts with
  | error f =>
    exact .bind (fun _ _ _ h => by cases h) fun _ =>
      failsOnly_mk fun _ h => by cases h; exact isLate_of_tweakText hm
  | ok m =>
    refine .bind (fun _ _ _ h => ?_) fun _ => .bind (fun _ _ _ h => by cases h) fun _ =>
      failsOnly_pure u
    cases hw : m.warning <;> rw [hw] at h <;> cases h

theorem failsOnly_writeTweak (name : String) (ts : List Tweak) (t : Tree) :
    FailsOnly Fault.IsLate (writeTweak x name ts t) :=
  (failsOnly_mk fun _ h => isLate_of_destination h).bind fun d => failsOnly_writeTo d ts t

theorem failsOnly_writeTweaks (fs : List (String × List Tweak)) (t : Tree) :
    FailsOnly Fault.IsLate (writeTweaks x fs t) := by
  induction fs generalizing t with
  | nil => exact failsOnly_pure t
  | cons f fs ih => exact (failsOnly_writeTweak f.1 f.2 t).bind fun _ => ih _

/-- Nothing is extracted any more when a mod is assembled. -/
theorem failsOnly_assemble (base : Tree) (plan : Plan) :
    FailsOnly Fault.IsLate (assemble x base plan) :=
  (failsOnly_mergePackages _ _ _).bind fun _ => (failsOnly_renameAll _ _).bind fun _ =>
    failsOnly_writeTweaks _ _

end ModWizard.Installer
