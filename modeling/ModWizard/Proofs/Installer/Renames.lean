import Mathlib.Data.List.Perm.Basic
import ModWizard.Proofs.Installer.Completion

/-!
# Renaming one after the other, and at once

Entries are renamed one after the other, and each is searched for in the folder that the ones before
it left.  What a folder has under its names is a view of it; on views, renaming is a fold of single
steps (`exists_renameAll_eq_foldl`).  All pairs are renamed as if at once, in whatever order they
are given, exactly if they are independent of each other (`renames_simultaneous_iff`): no pair has a
new name that is already taken, and none takes up what another has just put down.
-/

namespace ModWizard

namespace Tree

variable {t : Tree} {e : Entry} {old new : String}

theorem targetNames_of_whole (h : Whole new) : targetNames e new = [new] := by
  have hlast : ∀ c, new.toList.getLast? = some c → c ≠ '/' ∧ c ≠ '\\' := fun c hc =>
    have hmem := List.mem_of_getLast? hc
    ⟨fun he => h.no_slash (he ▸ hmem), fun he => h.no_backslash (he ▸ hmem)⟩
  unfold targetNames
  split
  next hc => exact absurd rfl (hlast _ hc).1
  next hc => exact absurd rfl (hlast _ hc).2
  next => exact pathNames_of_whole h

/-- An entry of a folder can be moved to every name of that folder that is free, or is its own. -/
theorem move_of_whole (hold : Whole old) (hnew : Whole new) :
    t.move (pathNames old) e new = .ok
      (if Text.lower new = Text.lower old ∨ t.entryAt? (Text.lower new) = none then
        (t.removeAt [old]).put (e.rename new) else t) := by
  have hsame : samePath [old] [new] = true ↔ Text.lower new = Text.lower old := by
    simp only [samePath, List.map_cons, List.map_nil, beq_iff_eq, List.cons.injEq, and_true]
    exact eq_comm
  simp only [move, targetNames_of_whole hnew, pathNames_of_whole hold, List.getLast?_singleton,
    findFrom?, child?_eq_entryAt?, List.dropLast_singleton, inFolder, id, Except.bind]
  by_cases hfree : Text.lower new = Text.lower old ∨ t.entryAt? (Text.lower new) = none
  · rw [if_pos hfree, if_neg, if_neg (by simp [leadsInto])]
    rw [Bool.and_eq_true, Bool.not_eq_true', ← Bool.not_eq_true, hsame, Option.isSome_iff_ne_none]
    tauto
  · rw [if_neg hfree, if_pos]
    rw [Bool.and_eq_true, Bool.not_eq_true', ← Bool.not_eq_true, hsame, Option.isSome_iff_ne_none]
    tauto

theorem entryAt?_put_removeAt (ht : t.Tidy) (k : String) :
    ((t.removeAt [old]).put (e.rename new)).entryAt? k =
      if Text.lower new = k then some (e.rename new)
      else if Text.lower old = k then none else t.entryAt? k := by
  rw [entryAt?_put, key_rename, entryAt?_removeAt ht]

/-- A tree without regard to where its files came from. -/
def unmarked : Tree → Tree
  | nil => nil
  | file n _ rest => file n none rest.unmarked
  | folder n i rest => folder n i.unmarked rest.unmarked

/-- A tree with its own files, but not those in folders, marked by their names. -/
def labelled (f : String → Option Nat) : Tree → Tree
  | nil => nil
  | file n _ rest => file n (f (Text.lower n)) (rest.labelled f)
  | folder n i rest => folder n i (rest.labelled f)

end Tree

/-- An entry without regard to where its files came from. -/
def Entry.unmarked : Entry → Entry
  | file n _ => file n none
  | folder n i => folder n i.unmarked

/-- An entry that has a mark if it is a file. -/
def Entry.label (o : Option Nat) : Entry → Entry
  | file n _ => file n o
  | folder n i => folder n i

namespace Tree

variable {t u : Tree}

theorem entryAt?_unmarked (t : Tree) (k : String) :
    t.unmarked.entryAt? k = (t.entryAt? k).map Entry.unmarked := by
  induction t with
  | nil => rfl
  | file n o rest ih =>
    rw [unmarked, entryAt?_file, entryAt?_file, ih, apply_ite (Option.map Entry.unmarked)]
    rfl
  | folder n i rest _ ih =>
    rw [unmarked, entryAt?_folder, entryAt?_folder, ih, apply_ite (Option.map Entry.unmarked)]
    rfl

theorem map_unmarked_entryAt? (h : u.unmarked = t.unmarked) (k : String) :
    (u.entryAt? k).map Entry.unmarked = (t.entryAt? k).map Entry.unmarked := by
  rw [← entryAt?_unmarked, h, entryAt?_unmarked]

theorem map_key_unmarked (t : Tree) :
    t.unmarked.entries.map Entry.key = t.entries.map Entry.key := by
  induction t with
  | nil => rfl
  | file n o rest ih => simp only [unmarked, entries, List.map_cons, Entry.key_file, ih]
  | folder n i rest _ ih => simp only [unmarked, entries, List.map_cons, Entry.key_folder, ih]

theorem tidy_unmarked_iff : t.unmarked.Tidy ↔ t.Tidy := by
  have hkeys : ∀ (u : Tree) (k : String),
      (∀ e ∈ u.unmarked.entries, e.key ≠ k) ↔ ∀ e ∈ u.entries, e.key ≠ k := fun u k => by
    rw [← List.forall_mem_map (f := Entry.key) (P := (· ≠ k)), map_key_unmarked,
      List.forall_mem_map]
  induction t with
  | nil => exact Iff.rfl
  | file n o rest ih => simp only [unmarked, Tidy, hkeys, ih]
  | folder n i rest ihi ih => simp only [unmarked, Tidy, hkeys, ihi, ih]

theorem unmarked_labelled (f : String → Option Nat) (t : Tree) :
    (t.labelled f).unmarked = t.unmarked := by
  induction t with
  | nil => rfl
  | file n o rest ih => rw [labelled, unmarked, unmarked, ih]
  | folder n i rest _ ih => rw [labelled, unmarked, unmarked, ih]

theorem entryAt?_labelled (f : String → Option Nat) (t : Tree) (k : String) :
    (t.labelled f).entryAt? k = (t.entryAt? k).map (Entry.label (f k)) := by
  induction t with
  | nil => rfl
  | file n o rest ih =>
    rw [labelled, entryAt?_file, entryAt?_file, ih]
    by_cases hk : Text.lower n = k
    · rw [if_pos hk, if_pos hk, hk]
      rfl
    · rw [if_neg hk, if_neg hk]
  | folder n i rest _ ih =>
    rw [labelled, entryAt?_folder, entryAt?_folder, ih, apply_ite (Option.map (Entry.label (f k)))]
    rfl

end Tree

namespace Installer

open Tree (Whole)

/-! ### Views -/

/-- What a folder has under the names of its entries, in small letters. -/
abbrev View := String → Option Entry

variable {f g w : View} {r s q : String × String} {rs gs done : List (String × String)} {k : String}

/-- The old name of a pair. -/
def source (r : String × String) : String := Text.lower r.1

/-- The new name of a pair. -/
def target (r : String × String) : String := Text.lower r.2

namespace View

/-- Whether there is something to rename under the old name of a pair. -/
def stands (f : View) (r : String × String) : Bool := (f (source r)).any Entry.isSolid

/-- Whether what stands under the old name of a pair can take its new name. -/
def free (f : View) (r : String × String) : Prop := target r = source r ∨ f (target r) = none

instance (f : View) (r : String × String) : Decidable (f.free r) :=
  inferInstanceAs (Decidable (_ ∨ _))

/-- The view with one pair renamed. -/
def step (f : View) (r : String × String) : View :=
  if f.stands r = true ∧ f.free r then fun k =>
    if target r = k then (f (source r)).map (Entry.rename r.2)
    else if source r = k then none else f k
  else f

theorem step_of_not (h : ¬ (f.stands r = true ∧ f.free r)) : f.step r = f := if_neg h

theorem step_apply (hs : f.stands r = true) (hf : f.free r) (k : String) :
    f.step r k = if target r = k then (f (source r)).map (Entry.rename r.2)
      else if source r = k then none else f k := by
  rw [step, if_pos ⟨hs, hf⟩]

theorem ne_none_of_stands (h : f.stands r = true) : f (source r) ≠ none := fun hn => by
  simp [stands, hn] at h

theorem stands_congr (h : g (source r) = f (source r)) : g.stands r = f.stands r := by
  rw [stands, h, stands]

end View

theorem isSolid_rename (e : Entry) (n : String) : (e.rename n).isSolid = e.isSolid := by
  rcases e with _ | ⟨_, _ | _ | _⟩ <;> rfl

theorem solidAt?_of_whole {t : Tree} {n : String} (h : Whole n) :
    solidAt? t n = (t.entryAt? (Text.lower n)).filter (·.isSolid) := by
  rw [solidAt?, Tree.find?_of_whole h]

/-- The renaming of one pair, on trees and on views. -/
theorem exists_renameAll_cons {t : Tree} (ht : t.Tidy) (hr : Whole r.1 ∧ Whole r.2) (l : Log) :
    ∃ t' l', t'.Tidy ∧ t'.entryAt? = View.step t.entryAt? r ∧
      ∀ rs, (renameAll (r :: rs) t).run.run l = (renameAll rs t').run.run l' := by
  have hsolid := solidAt?_of_whole (t := t) hr.1
  cases he : solidAt? t r.1 with
  | none =>
    rw [he] at hsolid
    have hstands : View.stands t.entryAt? r ≠ true := fun hst => by
      obtain ⟨e, hat, hs⟩ := Option.any_eq_true _ _ |>.mp hst
      rw [source] at hat
      rw [hat, Option.filter_some, if_pos hs] at hsolid
      cases hsolid
    refine ⟨t,
      { l with notices := l.notices ++ ["Plugin " ++ r.1 ++ " not found, cannot rename."] },
      ht, (View.step_of_not fun h => hstands h.1).symm, fun rs => ?_⟩
    rw [renameAll, he]
    rfl
  | some e =>
    obtain ⟨hat, hs⟩ := Option.filter_eq_some_iff.mp (hsolid ▸ he)
    have hstands : View.stands t.entryAt? r = true := by
      rw [View.stands, source, hat]
      exact hs
    have hmove := Tree.move_of_whole (t := t) (e := e) hr.1 hr.2
    refine ⟨_, l, ht.move (ht.of_entryAt? hat) hmove, ?_, fun rs => ?_⟩
    · by_cases hfree : Text.lower r.2 = Text.lower r.1 ∨ t.entryAt? (Text.lower r.2) = none
      · funext k
        rw [View.step_apply hstands hfree, if_pos hfree, Tree.entryAt?_put_removeAt ht, source, hat]
        rfl
      · rw [if_neg hfree, View.step_of_not fun h => hfree h.2]
    · rw [renameAll, he]
      simp only [hmove]
      rfl

/-- Renaming never fails, and is a fold of steps on views. -/
theorem exists_renameAll_eq_foldl {t : Tree} (ht : t.Tidy) (hw : ∀ r ∈ gs, Whole r.1 ∧ Whole r.2)
    (l : Log) :
    ∃ t' l', (renameAll gs t).run.run l = (.ok t', l') ∧
      t'.entryAt? = gs.foldl View.step t.entryAt? := by
  induction gs generalizing t l with
  | nil => exact ⟨t, l, rfl, rfl⟩
  | cons r gs ih =>
    rw [List.forall_mem_cons] at hw
    obtain ⟨u, k, hu, hview, hrun⟩ := exists_renameAll_cons ht hw.1 l
    obtain ⟨t', l', hrest, hfold⟩ := ih hu hw.2 k
    exact ⟨t', l', (hrun gs).trans hrest, by rw [hfold, hview, List.foldl_cons]⟩

/-! ### Renaming at once -/

/-- That a view is another one with all pairs renamed at once. -/
structure Simultaneous (f : View) (rs : List (String × String)) (w : View) : Prop where
  moved : ∀ r ∈ rs, f.stands r = true → w (target r) = (f (source r)).map (Entry.rename r.2)
  left : ∀ r ∈ rs, f.stands r = true → (∀ s ∈ rs, f.stands s = true → target s ≠ source r) →
    w (source r) = none
  kept : ∀ k, (∀ r ∈ rs, f.stands r = true → source r ≠ k ∧ target r ≠ k) → w k = f k

/-- That a pair finds its new name taken, whichever of some pairs are renamed before it. -/
def Barred (f : View) (rs : List (String × String)) (s : String × String) : Prop :=
  f (target s) ≠ none ∧ ∀ q ∈ rs, f.stands q = true → source q = target s → target q = source q

instance (f : View) (rs : List (String × String)) (s : String × String) :
    Decidable (Barred f rs s) :=
  inferInstanceAs (Decidable (_ ∧ _))

/-- That pairs can be renamed in any order: a new name is free, and a pair whose old name it is
finds its own new name taken throughout. -/
structure Independent (f : View) (rs : List (String × String)) : Prop where
  free : ∀ r ∈ rs, f.stands r = true → f.free r
  idle : ∀ r ∈ rs, f.stands r = true → ∀ s ∈ rs, source s = target r → s = r ∨ Barred f rs s

instance (f : View) (rs : List (String × String)) : Decidable (Independent f rs) :=
  decidable_of_iff
    ((∀ r ∈ rs, f.stands r = true → f.free r) ∧
      ∀ r ∈ rs, f.stands r = true → ∀ s ∈ rs, source s = target r → s = r ∨ Barred f rs s)
    ⟨fun h => ⟨h.1, h.2⟩, fun h => ⟨h.free, h.idle⟩⟩

/-- A list of pairs of names, with different old names and different new ones. -/
structure Renaming (rs : List (String × String)) : Prop where
  whole : ∀ r ∈ rs, Whole r.1 ∧ Whole r.2
  old : (rs.map source).Nodup
  new : (rs.map target).Nodup

namespace Renaming

variable (h : Renaming rs)

include h

theorem eq_of_source (hr : r ∈ rs) (hs : s ∈ rs) (he : source r = source s) : r = s :=
  List.inj_on_of_nodup_map h.old hr hs he

theorem eq_of_target (hr : r ∈ rs) (hs : s ∈ rs) (he : target r = target s) : r = s :=
  List.inj_on_of_nodup_map h.new hr hs he

theorem nodup : rs.Nodup := h.old.of_map _

end Renaming

theorem simultaneous_nil (f : View) : Simultaneous f [] f :=
  ⟨fun _ h => absurd h List.not_mem_nil, fun _ h => absurd h List.not_mem_nil, fun _ _ => rfl⟩

theorem Simultaneous.of_perm (h : Simultaneous f gs w) (hp : gs.Perm rs) : Simultaneous f rs w where
  moved r hr := h.moved r (hp.mem_iff.mpr hr)
  left r hr hs hno := h.left r (hp.mem_iff.mpr hr) hs fun s hsm => hno s (hp.mem_iff.mp hsm)
  kept k hk := h.kept k fun r hr => hk r (hp.mem_iff.mp hr)

section Sufficient

variable (hrs : Renaming rs) (hi : Independent f rs) (hdone : done ⊆ rs) (hs : s ∈ rs)
  (hnew : s ∉ done) (h : Simultaneous f done w)

include hrs hi hdone hs hnew h

/-- What is to be renamed is still where it was. -/
theorem Simultaneous.source_eq (hst : f.stands s = true) : w (source s) = f (source s) := by
  refine h.kept _ fun r hr hrst => ⟨fun he => ?_, fun he => ?_⟩
  · exact hnew (hrs.eq_of_source (hdone hr) hs he ▸ hr)
  · obtain heq | hnone := hi.free r (hdone hr) hrst
    · exact hnew (hrs.eq_of_source (hdone hr) hs (heq.symm.trans he) ▸ hr)
    · exact View.ne_none_of_stands hst (he ▸ hnone)

theorem Simultaneous.step_of_stands (hst : f.stands s = true) :
    Simultaneous f (done ++ [s]) (w.step s) := by
  have hsource := h.source_eq hrs hi hdone hs hnew hst
  have htarget : ∀ r ∈ done, target s ≠ target r := fun r hr he =>
    hnew (hrs.eq_of_target hs (hdone hr) he ▸ hr)
  have hnotput : ∀ r ∈ done, f.stands r = true → source s ≠ target r := fun r hr hrst he => by
    obtain heq | hnone := hi.free r (hdone hr) hrst
    · exact hnew (hrs.eq_of_source hs (hdone hr) (he.trans heq) ▸ hr)
    · exact View.ne_none_of_stands hst (he ▸ hnone)
  have hfree : w.free s := by
    refine (hi.free s hs hst).imp_right fun hnone => ?_
    rw [h.kept _ fun r hr hrst => ⟨fun he => ?_, (htarget r hr).symm⟩, hnone]
    exact View.ne_none_of_stands hrst (he ▸ hnone)
  have hstep := View.step_apply ((View.stands_congr hsource).trans hst) hfree
  refine ⟨?_, ?_, ?_⟩
  · intro r hr hrst
    rw [hstep]
    obtain hr | hr := List.mem_append.mp hr
    · rw [if_neg (htarget r hr), if_neg (hnotput r hr hrst), h.moved r hr hrst]
    · rw [List.mem_singleton.mp hr, if_pos rfl, hsource]
  · intro r hr hrst hno
    have hs' := hno s (List.mem_append_right _ List.mem_cons_self) hst
    rw [hstep, if_neg hs']
    split
    next => rfl
    next hne =>
      obtain hr | hr := List.mem_append.mp hr
      · exact h.left r hr hrst fun x hx => hno x (List.mem_append_left _ hx)
      · exact absurd (congrArg source (List.mem_singleton.mp hr).symm) hne
  · intro k hk
    obtain ⟨hks, hkt⟩ := hk s (List.mem_append_right _ List.mem_cons_self) hst
    rw [hstep, if_neg hkt, if_neg hks, h.kept k fun r hr => hk r (List.mem_append_left _ hr)]

/-- A pair that had nothing to rename has nothing to rename later, or finds its new name taken. -/
theorem Simultaneous.step_of_not_stands (hst : f.stands s ≠ true) : w.step s = w := by
  refine View.step_of_not fun ⟨hws, hfree⟩ => ?_
  -- something else has been put under its old name
  have hput : ∃ r ∈ done, f.stands r = true ∧ target r = source s := by
    by_contra hno
    push Not at hno
    refine hst ((View.stands_congr
      (h.kept _ fun r hr hrst => ⟨fun he => ?_, hno r hr hrst⟩)).symm.trans
      hws)
    exact hst (hrs.eq_of_source (hdone hr) hs he ▸ hrst)
  obtain ⟨r, hr, hrst, hput⟩ := hput
  have hne : s ≠ r := fun he => hst (he ▸ hrst)
  obtain heq | ⟨htaken, hstay⟩ := hi.idle r (hdone hr) hrst s hs hput.symm
  · exact hne heq
  obtain heq | hnone := hfree
  · exact hne (hrs.eq_of_target hs (hdone hr) (heq.trans hput.symm))
  · have htarget : ∀ q ∈ done, target q ≠ target s := fun q hq he =>
      hnew (hrs.eq_of_target (hdone hq) hs he ▸ hq)
    refine htaken ((h.kept _ fun q hq hqst => ⟨fun he => ?_, htarget q hq⟩).symm.trans hnone)
    exact htarget q hq ((hstay q (hdone hq) hqst he).trans he)

theorem Simultaneous.step : Simultaneous f (done ++ [s]) (w.step s) := by
  by_cases hst : f.stands s = true
  · exact h.step_of_stands hrs hi hdone hs hnew hst
  · rw [h.step_of_not_stands hrs hi hdone hs hnew hst]
    have hmem : ∀ r ∈ done ++ [s], f.stands r = true → r ∈ done := fun r hr hrst => by
      obtain hr | hr := List.mem_append.mp hr
      · exact hr
      · exact absurd (List.mem_singleton.mp hr ▸ hrst) hst
    refine ⟨fun r hr hrst => h.moved r (hmem r hr hrst) hrst, fun r hr hrst hno => ?_,
      fun k hk => ?_⟩
    · exact h.left r (hmem r hr hrst) hrst fun x hx => hno x (List.mem_append_left _ hx)
    · exact h.kept k fun r hr => hk r (List.mem_append_left _ hr)

end Sufficient

/-- Independent pairs are renamed at once, in any order. -/
theorem Independent.simultaneous (hrs : Renaming rs) (hi : Independent f rs) (hp : gs.Perm rs) :
    Simultaneous f rs (gs.foldl View.step f) := by
  -- along the pairs, those before have been renamed at once
  have hrun : ∀ rest done w, done ++ rest = gs → Simultaneous f done w →
      Simultaneous f gs (rest.foldl View.step w) := by
    intro rest
    induction rest with
    | nil =>
      intro done w he h
      rw [List.append_nil] at he
      subst he
      exact h
    | cons s rest ih =>
      intro done w he h
      have hnodup : (done ++ s :: rest).Nodup := he ▸ hp.nodup_iff.mpr hrs.nodup
      have hmem : ∀ x ∈ done ++ s :: rest, x ∈ rs := fun x hx => hp.mem_iff.mp (he ▸ hx)
      refine ih (done ++ [s]) (w.step s) (by rw [← he, List.append_assoc, List.singleton_append]) ?_
      refine h.step hrs hi (fun x hx => hmem x (List.mem_append_left _ hx)) (hmem s (by simp)) ?_
      exact fun hs => (List.nodup_append.mp hnodup).2.2 s hs s List.mem_cons_self rfl
  exact (hrun gs [] f rfl (simultaneous_nil f)).of_perm hp

/-! ### Renaming not at once -/

/-- What no pair takes up stays. -/
theorem foldl_step_of_source {e : Entry} (hk : ∀ r ∈ gs, source r ≠ k) (h : f k = some e) :
    gs.foldl View.step f k = some e := by
  induction gs generalizing f with
  | nil => exact h
  | cons r gs ih =>
    rw [List.forall_mem_cons] at hk
    refine ih hk.2 ?_
    by_cases hr : f.stands r = true ∧ f.free r
    · have hne : target r ≠ k := fun he =>
        hr.2.elim (fun hs => hk.1 (hs.symm.trans he)) fun hn => by
        rw [he, h] at hn
        cases hn
      rw [View.step_apply hr.1 hr.2, if_neg hne, if_neg hk.1, h]
    · rw [View.step_of_not hr, h]

/-- Where no pair puts something down nothing comes. -/
theorem foldl_step_of_target (hk : ∀ r ∈ gs, target r ≠ k) (h : f k = none) :
    gs.foldl View.step f k = none := by
  induction gs generalizing f with
  | nil => exact h
  | cons r gs ih =>
    rw [List.forall_mem_cons] at hk
    refine ih hk.2 ?_
    by_cases hr : f.stands r = true ∧ f.free r
    · rw [View.step_apply hr.1 hr.2, if_neg hk.1, h, ite_self]
    · rw [View.step_of_not hr, h]

/-- A pair finds its new name taken, and is left behind: then what it has to rename is not renamed
at once, if it can be told from what another pair would put in its place. -/
theorem free_of_simultaneous (hrs : Renaming rs) (hr : r ∈ rs) (hst : f.stands r = true)
    (hown : ∀ q ∈ rs, q ≠ r → f.stands q = true →
      (f (source q)).map (Entry.rename q.2) ≠ f (source r))
    (h : ∀ gs : List (String × String), gs.Perm rs → Simultaneous f rs (gs.foldl View.step f)) :
    f.free r := by
  by_contra hfree
  have hne : target r ≠ source r := fun he => hfree (.inl he)
  have hsim := h _ (List.perm_cons_erase hr).symm
  obtain ⟨e, he⟩ := Option.ne_none_iff_exists'.mp (View.ne_none_of_stands hst)
  have hstays : (rs.erase r).foldl View.step f (source r) = some e := by
    refine foldl_step_of_source (fun q hq hs => ?_) he
    obtain ⟨hqr, hq⟩ := hrs.nodup.mem_erase_iff.mp hq
    exact hqr (hrs.eq_of_source hq hr hs)
  rw [List.foldl_cons, View.step_of_not fun hb => hfree hb.2] at hsim
  by_cases hput : ∀ q ∈ rs, f.stands q = true → target q ≠ source r
  · cases (hsim.left r hr hst hput).symm.trans hstays
  · push Not at hput
    obtain ⟨q, hq, hqst, hput⟩ := hput
    refine hown q hq (fun he => hne (he ▸ hput)) hqst ?_
    rw [← hsim.moved q hq hqst, hput, hstays, he]

/-- What a pair puts down and another takes up at once is not where it should be. -/
theorem foldl_step_of_chain {e : Entry} (hs : s ≠ r) (hrs : Renaming rs) (hrm : r ∈ rs)
    (hsm : s ∈ rs)
    (hchain : source s = target r) (hst : g (source r) = some e) (hsolid : e.isSolid = true)
    (hfree : g (target r) = none) (hnext : target s = source r ∨ g (target s) = none)
    (hrest : ∀ q ∈ gs, q ∈ rs ∧ q ≠ r) :
    gs.foldl View.step ((g.step r).step s) (target r) = none := by
  have htarget : target r ≠ target s := fun he => hs (hrs.eq_of_target hrm hsm he).symm
  have hstands : g.stands r = true := by rw [View.stands, hst]; exact hsolid
  have hfirst := View.step_apply hstands (.inr hfree)
  have hput : g.step r (source s) = some (e.rename r.2) := by
    rw [hchain, hfirst, if_pos rfl, hst]
    rfl
  have hstands' : (g.step r).stands s = true := by
    rw [View.stands, hput]
    exact (isSolid_rename e r.2).trans hsolid
  have hfree' : (g.step r).free s := by
    refine .inr ?_
    rw [hfirst, if_neg htarget]
    split
    next => rfl
    next hne => exact hnext.resolve_left fun he => hne he.symm
  refine foldl_step_of_target (fun q hq he => ?_) ?_
  · exact (hrest q hq).2 (hrs.eq_of_target (hrest q hq).1 hrm he)
  · rw [View.step_apply hstands' hfree', if_neg htarget.symm, if_pos hchain]

theorem idle_of_simultaneous (hrs : Renaming rs)
    (hfree : ∀ r ∈ rs, f.stands r = true → f.free r)
    (h : ∀ gs : List (String × String), gs.Perm rs → Simultaneous f rs (gs.foldl View.step f))
    (hr : r ∈ rs) (hst : f.stands r = true) (hs : s ∈ rs) (hchain : source s = target r) :
    s = r ∨ Barred f rs s := by
  by_contra hno
  rw [Barred] at hno
  push Not at hno
  obtain ⟨hsr, hno⟩ := hno
  obtain ⟨e, he, hsolid⟩ := Option.any_eq_true _ _ |>.mp hst
  have hnone : f (target r) = none := (hfree r hr hst).resolve_left fun heq =>
    hsr (hrs.eq_of_source hs hr (hchain.trans heq))
  have hmoved : ∀ gs : List (String × String), gs.Perm rs →
      gs.foldl View.step f (target r) ≠ none :=
    fun gs hp hn => by
      rw [(h gs hp).moved r hr hst, he] at hn
      cases hn
  have hserase : s ∈ rs.erase r := (List.mem_erase_of_ne hsr).mpr hs
  by_cases hnext : target s = source r ∨ f (target s) = none
  · -- first this pair, then the one that takes up what it put down
    have hp : (r :: s :: (rs.erase r).erase s).Perm rs :=
      ((List.perm_cons_erase hserase).symm.cons r).trans (List.perm_cons_erase hr).symm
    refine hmoved _ hp
      (foldl_step_of_chain hsr hrs hr hs hchain he hsolid hnone hnext fun q hq => ?_)
    obtain ⟨hqr, hq⟩ := hrs.nodup.mem_erase_iff.mp (List.mem_of_mem_erase hq)
    exact ⟨hq, hqr⟩
  · -- before both, the pair that makes the second new name free
    push Not at hnext
    obtain ⟨q, hq, hqst, hqs, hqne⟩ := hno hnext.2
    have hqr : q ≠ r := fun he => hnext.1 (he ▸ hqs).symm
    have hqs' : s ≠ q := fun he => View.ne_none_of_stands hqst (by rw [← he, hchain, hnone])
    have hqnone : f (target q) = none := (hfree q hq hqst).resolve_left hqne
    have hstep := View.step_apply hqst (hfree q hq hqst)
    have hqerase : q ∈ (rs.erase r).erase s :=
      (List.mem_erase_of_ne hqs'.symm).mpr ((List.mem_erase_of_ne hqr).mpr hq)
    have hp : (q :: r :: s :: ((rs.erase r).erase s).erase q).Perm rs := by
      refine List.Perm.trans ?_ (List.perm_cons_erase hr).symm
      refine List.Perm.trans ?_ ((List.perm_cons_erase hserase).symm.cons r)
      refine (List.Perm.swap r q _).trans (List.Perm.cons r ?_)
      exact (List.Perm.swap s q _).trans ((List.perm_cons_erase hqerase).symm.cons s)
    have hrq : target q ≠ source r := fun heq => by
      rw [heq, he] at hqnone
      cases hqnone
    refine hmoved _ hp (foldl_step_of_chain hsr hrs hr hs hchain (g := f.step q) ?_ hsolid ?_ ?_
      fun x hx => ?_)
    · rw [hstep, if_neg hrq, if_neg fun heq => hqr (hrs.eq_of_source hq hr heq), he]
    · rw [hstep, if_neg fun heq => hqr (hrs.eq_of_target hq hr heq), hnone, ite_self]
    · rw [hstep, ← hqs, if_neg hqne, if_pos rfl]
      exact .inr rfl
    · obtain ⟨hxr, hx⟩ := hrs.nodup.mem_erase_iff.mp
        (List.mem_of_mem_erase (List.mem_of_mem_erase hx))
      exact ⟨hx, hxr⟩

/-! ### Trees of one shape -/

theorem View.free_congr (h : ∀ k, (g k).map Entry.unmarked = (f k).map Entry.unmarked) :
    g.free r ↔ f.free r := by
  rw [View.free, ← Option.map_eq_none_iff (f := Entry.unmarked), h, Option.map_eq_none_iff,
    View.free]

theorem View.stands_of_unmarked (h : ∀ k, (g k).map Entry.unmarked = (f k).map Entry.unmarked) :
    g.stands r = f.stands r := by
  have hsolid : ∀ o : Option Entry,
      (o.map Entry.unmarked).any Entry.isSolid = o.any Entry.isSolid := by
    rintro (_ | _ | ⟨_, _ | _ | _⟩) <;> rfl
  rw [View.stands, ← hsolid, h, hsolid, View.stands]

/-- Whether pairs are independent does not hang on where the files came from. -/
theorem Independent.congr (h : ∀ k, (g k).map Entry.unmarked = (f k).map Entry.unmarked)
    (hi : Independent f rs) : Independent g rs := by
  have hst : ∀ r, g.stands r = f.stands r := fun r => View.stands_of_unmarked h
  refine ⟨fun r hr hrst => ?_, fun r hr hrst s hs hchain => ?_⟩
  · exact (View.free_congr h).mpr (hi.free r hr (hst r ▸ hrst))
  · refine (hi.idle r hr (hst r ▸ hrst) s hs hchain).imp_right
      fun ⟨htaken, hstay⟩ => ⟨fun hn => ?_, ?_⟩
    · refine htaken (Option.map_eq_none_iff.mp ((h _).symm.trans ?_))
      rw [hn, Option.map_none]
    · exact fun q hq hqst => hstay q hq (hst q ▸ hqst)

/-- If pairs are renamed at once wherever the files came from, then every new name is free: a file
that is left behind can be told from any other by a mark of its own. -/
theorem free_of_simultaneous_marked {t : Tree} (hrs : Renaming rs)
    (hfile : ∀ r ∈ rs, View.stands t.entryAt? r = true →
      (t.entryAt? (source r)).any Entry.isFile = true)
    (h : ∀ u : Tree, u.unmarked = t.unmarked → ∀ gs : List (String × String), gs.Perm rs →
      Simultaneous u.entryAt? rs (gs.foldl View.step u.entryAt?)) :
    ∀ r ∈ rs, View.stands t.entryAt? r = true → View.free t.entryAt? r := by
  intro r hr hst
  let mark := fun k => if k = source r then some 0 else none
  have hshape := Tree.unmarked_labelled mark t
  have hview := Tree.map_unmarked_entryAt? hshape
  refine (View.free_congr hview).mp (free_of_simultaneous hrs hr
    ((View.stands_of_unmarked hview).trans hst) (fun q hq hqr hqst he => ?_) (h _ hshape))
  obtain ⟨x, hx, hxf⟩ := Option.any_eq_true _ _ |>.mp
    (hfile q hq ((View.stands_of_unmarked hview).symm.trans hqst))
  obtain ⟨y, hy, hyf⟩ := Option.any_eq_true _ _ |>.mp (hfile r hr hst)
  have hne : source q ≠ source r := fun he => hqr (hrs.eq_of_source hq hr he)
  rw [Tree.entryAt?_labelled, Tree.entryAt?_labelled, hx, hy] at he
  cases x with
  | folder _ _ => cases hxf
  | file _ _ =>
    cases y with
    | folder _ _ => cases hyf
    | file _ _ => simp [mark, hne, Entry.label, Entry.rename] at he

theorem simultaneous_foldl_of_renameAll {u : Tree} (hu : u.Tidy) (hrs : Renaming rs)
    (hp : gs.Perm rs)
    (h : ∀ l, ∃ u' l', (renameAll gs u).run.run l = (.ok u', l') ∧
      Simultaneous u.entryAt? rs u'.entryAt?) :
    Simultaneous u.entryAt? rs (gs.foldl View.step u.entryAt?) := by
  obtain ⟨u', l', hrun, hsim⟩ := h ⟨[], [], []⟩
  obtain ⟨v, k, hrun', hview⟩ :=
    exists_renameAll_eq_foldl hu (fun r hr => hrs.whole r (hp.mem_iff.mp hr)) ⟨[], [], []⟩
  rw [hrun] at hrun'
  cases hrun'
  rwa [← hview]

namespace Plugins

/-- A folder of files. -/
def folder (names : List String) : Tree := .ofEntries (names.map (.file · none))

/-- Plugins and pairs of names: in another case, to a free name, without a plugin, and from that
free name to one that is taken. -/
def plugins : Tree := folder ["a.esp", "b.esp", "c.esp"]

def pairs : List (String × String) :=
  [("a.esp", "A.esp"), ("b.esp", "d.esp"), ("x.esp", "y.esp"), ("d.esp", "c.esp")]

/-- A chain of names. -/
def chain : List (String × String) := [("a.esp", "b.esp"), ("b.esp", "c.esp")]

/-- What comes of renaming. -/
def renamed (rs : List (String × String)) (t : Tree) : Option Tree :=
  ((renameAll rs t).run.run ⟨[], [], []⟩).1.toOption

/-- Two files that can be told from each other. -/
def marked : Tree := .file "a.esp" (some 0) (.file "b.esp" (some 1) .nil)

end Plugins

/-- Wherever the files of a tree came from and in whatever order the pairs are given, renaming gives
the tree in which all are renamed at once, exactly if the pairs are independent in that tree. -/
theorem renames_simultaneous_iff {t : Tree} (ht : t.Tidy) (hrs : Renaming rs)
    (hfile : ∀ r ∈ rs, View.stands t.entryAt? r = true →
      (t.entryAt? (source r)).any Entry.isFile = true) :
    (∀ u : Tree, u.unmarked = t.unmarked → ∀ gs : List (String × String), gs.Perm rs → ∀ l,
      ∃ u' l', (renameAll gs u).run.run l = (.ok u', l') ∧ Simultaneous u.entryAt? rs u'.entryAt?) ↔
    Independent t.entryAt? rs := by
  have htidy : ∀ u : Tree, u.unmarked = t.unmarked → u.Tidy := fun u hu =>
    Tree.tidy_unmarked_iff.mp (hu ▸ Tree.tidy_unmarked_iff.mpr ht)
  constructor
  · intro h
    have hsim : ∀ u : Tree, u.unmarked = t.unmarked → ∀ gs : List (String × String), gs.Perm rs →
        Simultaneous u.entryAt? rs (gs.foldl View.step u.entryAt?) := fun u hu gs hp =>
      simultaneous_foldl_of_renameAll (htidy u hu) hrs hp (h u hu gs hp)
    have hfree := free_of_simultaneous_marked hrs hfile hsim
    exact ⟨hfree, fun r hr hst s hs => idle_of_simultaneous hrs hfree (hsim t rfl) hr hst hs⟩
  · intro hi u hu gs hp l
    obtain ⟨u', l', hrun, hfold⟩ :=
      exists_renameAll_eq_foldl (htidy u hu) (fun r hr => hrs.whole r (hp.mem_iff.mp hr)) l
    refine ⟨u', l', hrun, ?_⟩
    rw [hfold]
    exact (hi.congr (Tree.map_unmarked_entryAt? hu)).simultaneous hrs hp

open Plugins in
theorem renames_simultaneous_pairs :
    plugins.Tidy ∧ Renaming pairs ∧ Independent plugins.entryAt? pairs ∧
      ∃ t l, (renameAll pairs.reverse plugins).run.run ⟨[], [], []⟩ = (.ok t, l) ∧
        Simultaneous plugins.entryAt? pairs t.entryAt? := by
  have ht : plugins.Tidy := by decide +kernel
  have hrs : Renaming pairs :=
    ⟨by decide +kernel, by decide +kernel, by decide +kernel⟩
  have hfile : ∀ r ∈ pairs, View.stands plugins.entryAt? r = true →
      (plugins.entryAt? (source r)).any Entry.isFile = true := by decide +kernel
  have hi : Independent plugins.entryAt? pairs := by decide +kernel
  exact ⟨ht, hrs, hi, (renames_simultaneous_iff ht hrs hfile).mpr hi plugins rfl pairs.reverse
    (List.reverse_perm pairs) ⟨[], [], []⟩⟩

open Plugins in
/-- A chain of names gives another tree in another order, and takes the one file that is there
through to its end.  Names are not exchanged. -/
theorem renames_not_simultaneous_chain :
    (renamed chain (folder ["a.esp", "b.esp"])).map Tree.listing = some ["a.esp", "c.esp"] ∧
      (renamed chain.reverse (folder ["a.esp", "b.esp"])).map Tree.listing =
        some ["c.esp", "b.esp"] ∧
      (renamed chain (folder ["a.esp"])).map Tree.listing = some ["c.esp"] ∧
      renamed [("a.esp", "b.esp"), ("b.esp", "a.esp")] marked = some marked := by
  decide +kernel

end Installer

end ModWizard
