import ModWizard.Proofs.Disk
import ModWizard.Proofs.Tree.Path

/-!
# Reading what was written

A file that is written by a path of proper names is stored at the place of these names, with folders
on the way (`Stored`).  Later writing at other places leaves it there: no folder on its way can be
taken for a file (`stored_of_write`).  What is stored at a place is read by the path that was
written (`Stored.read`).
-/

namespace ModWizard.Disk

open Tree (Proper pathText)

variable {d e : Disk} {place next p : Place} {m : Milestone} {ms : List Milestone}
  {content : ByteArray} {n path : String} {ns : List String}

/-- That a file stands at a place, with folders on the way. -/
structure Stored (d : Disk) (place : Place) (content : ByteArray) : Prop where
  file : d.item? place = some (.file content)
  way : ∀ p, p <+: place → p ≠ place → d.item? p = some .folder

/-- That what is on a disk stays as it is. -/
def Kept (d e : Disk) : Prop := ∀ p i, d.item? p = some i → e.item? p = some i

theorem Kept.trans {f : Disk} (h : Kept d e) (h' : Kept e f) : Kept d f :=
  fun p i hi => h' p i (h p i hi)

/-- Whether a name can be on the disk. -/
structure Usable (n : String) : Prop where
  short : isTooLong n = false
  free : hasNull n = false

theorem kind?_eq_false_iff : d.kind? place = some false ↔ d.item? place = some .folder := by
  unfold kind?
  rcases d.item? place with _ | (_ | _) <;> simp [Item.isFile]

theorem check_eq_ok_iff : m.check = .ok () ↔ hasNull m.name = false ∧ m.reach ≤ maxPath := by
  unfold Milestone.check
  cases hasNull m.name with
  | true => simp
  | false =>
    by_cases hr : maxPath < m.reach
    · simp [hr, Nat.not_le.mpr hr]
    · simp [hr, Nat.not_lt.mp hr]

/-! ### Folders on the way -/

/-- Entering a folder by a name that leads down leads there. -/
theorem of_enter_eq_ok (hm : Proper m.name) (hplace : (d.kind? place).isSome)
    (h : (enter place m).run.run d = (.ok next, e)) :
    next = place ++ [m.name] ∧ Kept d e ∧ e.item? place = some .folder ∧ (e.kind? next).isSome ∧
      Usable m.name := by
  obtain ⟨hnext, rfl⟩ | ⟨hmissing, rfl, rfl⟩ := enter_eq_ok.mp h
  · obtain ⟨hcheck, hstep⟩ := check_of_advance hnext (.inr ⟨next, rfl⟩)
    obtain ⟨hfolder, ⟨hstay, -⟩ | ⟨hup, -⟩ | ⟨-, -, hlong, hthere, rfl⟩⟩ := step_eq_ok.mp hstep
    · exact absurd hstay hm.ne_stay
    · exact absurd hup hm.ne_up
    · exact ⟨rfl, fun _ _ h => h, kind?_eq_false_iff.mp hfolder, hthere, hlong,
        (check_eq_ok_iff.mp hcheck).1⟩
  · obtain ⟨hcheck, hstep⟩ := check_of_advance hmissing (.inl rfl)
    obtain ⟨hfolder, -, -, hlong, hnone⟩ := (step_eq_missing hplace).mp hstep
    have hkept : Kept d (d.put (place ++ [m.name]) .folder) := fun p i hi => by
      have hne : place ++ [m.name] ≠ p := fun he => by
        rw [kind?, he, hi] at hnone
        cases hnone
      rw [item?_put_of_ne hne, hi]
    refine ⟨rfl, hkept, hkept _ _ (kind?_eq_false_iff.mp hfolder), ?_, hlong,
      (check_eq_ok_iff.mp hcheck).1⟩
    rw [kind?_put_self .folder hm.ne_up]
    rfl

/-- Going down some names leads to their place, through folders. -/
theorem of_foldlM_enter (hms : ∀ m ∈ ms, Proper m.name) (hplace : (d.kind? place).isSome)
    (h : (ms.foldlM enter place).run.run d = (.ok next, e)) :
    next = place ++ ms.map (·.name) ∧ Kept d e ∧ (e.kind? next).isSome ∧
      (∀ p, place <+: p → p <+: next → p ≠ next → e.item? p = some .folder) ∧
      ∀ m ∈ ms, Usable m.name := by
  induction ms generalizing place d with
  | nil =>
    obtain ⟨rfl, rfl⟩ := Work.run_pure_eq_ok.mp h
    refine ⟨by simp, fun _ _ h => h, hplace, fun p hp hp' hne => ?_, by simp⟩
    exact absurd (hp'.eq_of_length_le hp.length_le) hne
  | cons m ms ih =>
    rw [List.forall_mem_cons] at hms
    rw [List.foldlM_cons] at h
    obtain ⟨place', d', hfirst, hrest⟩ := Work.run_bind_eq_ok.mp h
    obtain ⟨rfl, hkept, hfolder, hthere, husable⟩ := of_enter_eq_ok hms.1 hplace hfirst
    obtain ⟨hnext, hkept', hthere', hway, husables⟩ := ih hms.2 hthere hrest
    refine ⟨by simp [hnext], hkept.trans hkept', hthere', fun p hp hp' hne => ?_,
      List.forall_mem_cons.mpr ⟨husable, husables⟩⟩
    by_cases hpe : p = place
    · rw [hpe]
      exact hkept' _ _ hfolder
    · refine hway p ?_ hp' hne
      -- a longer prefix has the first name too
      obtain ⟨q, rfl⟩ := hp
      rw [hnext, List.append_assoc, List.prefix_append_right_inj] at hp'
      cases q with
      | nil => exact absurd (List.append_nil _) hpe
      | cons n q =>
        rw [List.singleton_append, List.cons_prefix_cons] at hp'
        rw [List.prefix_append_right_inj, hp'.1]
        exact ⟨q, rfl⟩

/-! ### Written files -/

/-- A written file is stored at the place of its names, and files stored elsewhere stay. -/
theorem stored_of_write {room : Nat} (hms : (milestones path).map (·.name) = ns)
    (hns : ∀ n ∈ ns, Proper n) (h : (write room path content).run.run d = (.ok (), e)) :
    Stored e ns content ∧ (∀ p c, Stored d p c → p ≠ ns → Stored e p c) ∧ (∀ n ∈ ns, Usable n) ∧
      ∀ m ∈ (milestones path).getLast?, m.reach ≤ maxPath := by
  rw [write] at h
  obtain ⟨place, d', hfolder, h⟩ := Work.run_bind_eq_ok.mp h
  obtain ⟨-, hway, hkind⟩ := makeFolder_eq_ok.mp hfolder
  cases hlast : (milestones path).getLast? with
  | none =>
    rw [hlast] at h
    cases h
  | some m =>
    rw [hlast] at h
    obtain ⟨hcheck, -, hup, hlong, hfile, rfl⟩ := writeIn_eq_ok.mp h
    have hsplit : milestones path = (milestones path).dropLast ++ [m] :=
      (List.dropLast_append_getLast? m hlast).symm
    have hproper : ∀ x ∈ milestones path, Proper x.name := fun x hx =>
      hns _ (hms ▸ List.mem_map_of_mem hx)
    obtain ⟨hplace, hkept, hthere, hfolders, husable⟩ := of_foldlM_enter
      (fun x hx => hproper x (List.mem_of_mem_dropLast hx)) (by simp [kind?, item?]) hway
    have hns' : ns = place ++ [m.name] := by
      rw [← hms, hsplit, List.map_append, hplace, List.nil_append, List.map_singleton]
    have hfolder' : d'.item? place = some .folder := by
      obtain ⟨k, hk⟩ := Option.isSome_iff_exists.mp hthere
      cases k with
      | true => exact absurd hk hkind
      | false => exact kind?_eq_false_iff.mp hk
    have hput : ∀ p i, d'.item? p = some i → p ≠ ns →
        (d'.put (place ++ [m.name]) (.file content)).item? p = some i := fun p i hi hne => by
      rw [item?_put_of_ne (hns' ▸ hne.symm), hi]
    refine ⟨⟨?_, fun p hp hne => ?_⟩, fun p c hst hne => ⟨?_, fun q hq hqne => ?_⟩, ?_, ?_⟩
    · rw [hns', item?_put (by simp [hup])]
    · have hp' : p <+: place := by
        rw [hns', List.prefix_concat_iff, ← hns'] at hp
        exact hp.resolve_left hne
      refine hput p _ ?_ hne
      by_cases hpe : p = place
      · rw [hpe, hfolder']
      · exact hfolders p List.nil_prefix hp' hpe
    · exact hput p _ (hkept _ _ hst.file) hne
    · -- the file does not take the place of a folder
      refine hput q _ (hkept _ _ (hst.way q hq hqne)) fun he => hfile ?_
      rw [kind?_eq_false_iff, ← hns', ← he]
      exact hkept _ _ (hst.way q hq hqne)
    · intro n hn
      rw [hns', hplace, List.nil_append, List.mem_append, List.mem_map, List.mem_singleton] at hn
      obtain ⟨x, hx, rfl⟩ | rfl := hn
      · exact husable x hx
      · exact ⟨hlong, (check_eq_ok_iff.mp hcheck).1⟩
    · intro x hx
      cases hx
      exact (check_eq_ok_iff.mp hcheck).2

/-! ### Read files -/

theorem Stored.walk (h : Stored d ns content) (hns : ∀ n ∈ ns, Proper n) (hu : ∀ n ∈ ns, Usable n) :
    d.walk ns = .ok (.file content) := by
  have hfold : ∀ rest p, p ++ rest = ns → rest.foldlM d.step p = .ok ns := by
    intro rest
    induction rest with
    | nil =>
      rintro p rfl
      rw [List.append_nil]
      rfl
    | cons n rest ih =>
      intro p hp
      have hn : n ∈ ns := hp ▸ List.mem_append_right _ List.mem_cons_self
      have hfolder : d.item? p = some .folder := h.way p ⟨_, hp⟩ fun he => by
        simp [he] at hp
      have hthere : (d.kind? (p ++ [n])).isSome := by
        by_cases he : p ++ [n] = ns
        · simp [kind?, he, h.file]
        · have hway := h.way (p ++ [n])
            ⟨rest, by rw [← hp, List.append_assoc, List.singleton_append]⟩ he
          simp [kind?, hway]
      have hstep : d.step p n = .ok (p ++ [n]) := step_eq_ok.mpr
        ⟨kind?_eq_false_iff.mpr hfolder,
          .inr (.inr ⟨(hns n hn).ne_stay, (hns n hn).ne_up, (hu n hn).short, hthere, rfl⟩)⟩
      rw [List.foldlM_cons, hstep]
      exact ih (p ++ [n]) (by rw [← hp, List.append_assoc, List.singleton_append])
  rw [Disk.walk, hfold ns [] rfl]
  simp only [Except.bind, h.file]

/-- A stored file is read by the path of its names. -/
theorem Stored.read (h : Stored d ns content) (hne : ns ≠ []) (hns : ∀ n ∈ ns, Proper n)
    (hu : ∀ n ∈ ns, Usable n) (hsize : (pathText ns).utf8ByteSize ≤ maxPath) :
    d.read (Path.ofString (pathText ns)) = .ok content := by
  have hcheck : check ⟨.here, ns⟩ = .ok () := by
    rw [check, if_neg, if_neg]
    · rw [Tree.text_of_proper hne hns]
      exact Nat.not_lt.mpr hsize
    · rw [List.any_eq_true]
      rintro ⟨n, hn, hnull⟩
      cases (hu n hn).free.symm.trans hnull
  rw [Tree.ofString_pathText hne hns, Disk.read, find, hcheck]
  simp only [Except.bind, if_true, h.walk hns hu]

/-! ### The names of a written path -/

theorem map_name_milestonesFrom (start : Nat) (ns : List String) :
    (milestonesFrom start ns).map (·.name) = ns := by
  induction ns generalizing start with
  | nil => rfl
  | cons n ns ih => rw [milestonesFrom, List.map_cons, ih]

theorem reach_getLast?_milestonesFrom (start : Nat) (ns : List String) :
    ∀ m ∈ (milestonesFrom start ns).getLast?,
      m.reach = start + ("/".intercalate ns).utf8ByteSize := by
  induction ns generalizing start with
  | nil => simp [milestonesFrom]
  | cons n ns ih =>
    cases ns with
    | nil => simp [milestonesFrom]
    | cons k ns =>
      intro m hm
      rw [milestonesFrom, milestonesFrom, List.getLast?_cons_cons, ← milestonesFrom] at hm
      have hslash : ("/" : String).utf8ByteSize = 1 := by decide
      rw [ih _ m hm, String.intercalate_cons_cons, String.utf8ByteSize_append,
        String.utf8ByteSize_append, hslash]
      omega

theorem milestones_pathText (hne : ns ≠ []) (hns : ∀ n ∈ ns, Proper n) :
    milestones (pathText ns) = milestonesFrom 0 ns := by
  have hempty : ∀ n ∈ ns, n ≠ "" := fun n hn => (hns n hn).ne_empty
  rw [milestones, Tree.pathText_eq_intercalate hempty,
    Tree.splitSlashes_intercalate hne fun n hn => (hns n hn).no_slash, List.filter_eq_self]
  intro m hm
  have hmem : m.name ∈ ns := map_name_milestonesFrom 0 ns ▸ List.mem_map_of_mem hm
  simpa using hempty _ hmem

end ModWizard.Disk
