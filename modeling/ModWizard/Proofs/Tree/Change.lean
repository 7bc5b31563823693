import ModWizard.Proofs.Tree.Tidy

/-!
# What merges and moves leave at a place

A file that stands at a place of a merged tree is that of the tree that was merged into it, if this
one has a file there, and else it is the file that was there before (`kindAt?_merge_file`).  A file
that stands at a place after a move stood there before, or it was moved there from the place below
the old path that is as far (`kindAt?_move_file`).
-/

namespace ModWizard.Tree

variable {t t' u i : Tree} {e : Entry} {es : List Entry} {k : String} {ks ns p : List String}
  {o : Option Nat}

/-! ### Places from entries -/

theorem entryAt?_file (n : String) (o : Option Nat) (rest : Tree) (k : String) :
    (file n o rest).entryAt? k =
      if Text.lower n = k then some (.file n o) else rest.entryAt? k := by
  rw [entryAt?, entries]
  by_cases hk : Text.lower n = k
  · rw [if_pos hk, List.find?_cons_of_pos (by simp [Entry.key_file, hk])]
  · rw [if_neg hk, List.find?_cons_of_neg (by simp [Entry.key_file, hk])]
    rfl

theorem entryAt?_folder (n : String) (i rest : Tree) (k : String) :
    (folder n i rest).entryAt? k =
      if Text.lower n = k then some (.folder n i) else rest.entryAt? k := by
  rw [entryAt?, entries]
  by_cases hk : Text.lower n = k
  · rw [if_pos hk, List.find?_cons_of_pos (by simp [Entry.key_folder, hk])]
  · rw [if_neg hk, List.find?_cons_of_neg (by simp [Entry.key_folder, hk])]
    rfl

theorem entryAt?_eq_none (h : ∀ e ∈ t.entries, e.key ≠ k) : t.entryAt? k = none := by
  rw [entryAt?, List.find?_eq_none]
  simpa using h

theorem Tidy.entryAt?_of_mem (ht : t.Tidy) (he : e ∈ t.entries) : t.entryAt? e.key = some e := by
  induction t with
  | nil => cases he
  | file n o rest ih =>
    rw [entryAt?_file]
    obtain rfl | he := List.mem_cons.mp he
    · rw [if_pos (Entry.key_file n o).symm]
    · rw [if_neg (ht.1 e he).symm, ih ht.2 he]
  | folder n i rest _ ih =>
    rw [entryAt?_folder]
    obtain rfl | he := List.mem_cons.mp he
    · rw [if_pos (Entry.key_folder n i).symm]
    · rw [if_neg (ht.1 e he).symm, ih ht.2.2 he]

@[simp] theorem kindAt?_nil (t : Tree) : t.kindAt? [] = some .folder := rfl

theorem kindAt?_cons (t : Tree) (k : String) (ks : List String) :
    t.kindAt? (k :: ks) = ((t.entryAt? k).bind (·.reach ks)).map Entry.kind := rfl

/-- The kinds below an entry hang on the entry alone. -/
theorem kindAt?_cons_congr (h : t'.entryAt? k = t.entryAt? k) (ks : List String) :
    t'.kindAt? (k :: ks) = t.kindAt? (k :: ks) := by
  rw [kindAt?_cons, h, kindAt?_cons]

theorem kindAt?_cons_of_none (h : t.entryAt? k = none) (ks : List String) :
    t.kindAt? (k :: ks) = none := by
  rw [kindAt?_cons, h]
  rfl

/-- Below a folder are the places of its content. -/
theorem kindAt?_cons_of_folder {n : String} (h : t.entryAt? k = some (.folder n i))
    (ks : List String) : t.kindAt? (k :: ks) = i.kindAt? ks := by
  rw [kindAt?_cons, h]
  cases ks <;> rfl

theorem kindAt?_cons_of_file {n : String} (h : t.entryAt? k = some (.file n o)) {x : Kind}
    (hx : t.kindAt? (k :: ks) = some x) : ks = [] ∧ x = .file o := by
  rw [kindAt?_cons, h] at hx
  cases ks with
  | nil =>
    cases hx
    exact ⟨rfl, rfl⟩
  | cons => cases hx

theorem kindAt?_file (n : String) (o : Option Nat) (rest : Tree) (k : String) (ks : List String) :
    (file n o rest).kindAt? (k :: ks) =
      if Text.lower n = k then (if ks = [] then some (.file o) else none)
      else rest.kindAt? (k :: ks) := by
  rw [kindAt?_cons, entryAt?_file]
  by_cases hk : Text.lower n = k
  · rw [if_pos hk, if_pos hk]
    cases ks <;> rfl
  · rw [if_neg hk, if_neg hk, kindAt?_cons]

theorem kindAt?_folder (n : String) (i rest : Tree) (k : String) (ks : List String) :
    (folder n i rest).kindAt? (k :: ks) =
      if Text.lower n = k then i.kindAt? ks else rest.kindAt? (k :: ks) := by
  by_cases hk : Text.lower n = k
  · rw [if_pos hk, kindAt?_cons_of_folder (by rw [entryAt?_folder, if_pos hk])]
  · rw [if_neg hk]
    exact kindAt?_cons_congr (by rw [entryAt?_folder, if_neg hk]) ks

theorem kindAt?_append_of_at? {r : List String} (h : t.at? p = some e) :
    t.kindAt? (p ++ r) = (e.reach r).map Entry.kind := by
  rw [kindAt?, at?_append, h, Option.bind_some]

/-! ### Merges -/

theorem find?_mergeFolder (n : String) (inner : Tree) (into : Tree → Tree) (es : List Entry)
    (k : String) :
    (mergeFolder n inner into es).find? (·.key == k) =
      if Text.lower n = k then
        match es.find? (·.key == k) with
        | some (.folder m j) => some (.folder m (into j))
        | _ => some (.folder n inner)
      else es.find? (·.key == k) := by
  induction es with
  | nil =>
    rw [mergeFolder, List.find?_nil, List.find?_singleton, Entry.key_folder]
    simp only [beq_iff_eq]
  | cons x es ih =>
    have hnamed : x.isNamed n = true ↔ x.key = Text.lower n := by simp [Entry.isNamed_eq]
    unfold mergeFolder
    by_cases hx : x.key = Text.lower n
    · rw [if_pos (hnamed.mpr hx)]
      cases x with
      | file m o =>
        rw [Entry.key_file] at hx
        by_cases hk : Text.lower n = k <;> simp [Entry.key_file, Entry.key_folder, hx, hk]
      | folder m j =>
        rw [Entry.key_folder] at hx
        by_cases hk : Text.lower n = k <;> simp [Entry.key_folder, hx, hk]
    · rw [if_neg fun h => hx (hnamed.mp h)]
      by_cases hk : x.key = k
      · have hne : Text.lower n ≠ k := fun he => hx (hk.trans he.symm)
        rw [if_neg hne, List.find?_cons_of_pos (by simp [hk]),
          List.find?_cons_of_pos (by simp [hk])]
      · rw [List.find?_cons_of_neg (by simp [hk]), List.find?_cons_of_neg (by simp [hk]), ih]

/-- A file of a merged tree is one of the tree that was merged, or one of the tree before where the
other has nothing. -/
theorem kindAt?_merge_file (hu : u.Tidy) (h : (t.merge u).kindAt? p = some (.file o)) :
    u.kindAt? p = some (.file o) ∨ u.kindAt? p = none ∧ t.kindAt? p = some (.file o) := by
  -- along the entries that are merged one after the other; those below a folder before the rest
  induction u generalizing t p with
  | nil =>
    cases p with
    | nil => cases h
    | cons k ks => exact .inr ⟨rfl, h⟩
  | file n x rest ih =>
    obtain ⟨hnew, hrest⟩ := hu
    rw [merge] at h
    cases p with
    | nil => cases h
    | cons k ks =>
      have hput := entryAt?_put t (.file n x) k
      rw [Entry.key_file] at hput
      rw [kindAt?_file]
      by_cases hk : Text.lower n = k
      · rw [if_pos hk] at hput ⊢
        have hnone := kindAt?_cons_of_none (entryAt?_eq_none (hk ▸ hnew)) ks
        obtain h | ⟨-, h⟩ := ih hrest h
        · cases hnone.symm.trans h
        · obtain ⟨rfl, he⟩ := kindAt?_cons_of_file hput h
          exact .inl (by rw [if_pos rfl, he])
      · rw [if_neg hk] at hput ⊢
        rw [← kindAt?_cons_congr hput]
        exact ih hrest h
  | folder n j rest ihj ih =>
    obtain ⟨hnew, hj, hrest⟩ := hu
    rw [merge] at h
    cases p with
    | nil => cases h
    | cons k ks =>
      have hmerged := find?_mergeFolder n j (fun into => merge into j) t.entries k
      rw [← entries_ofEntries (mergeFolder n j (fun into => merge into j) t.entries)] at hmerged
      rw [kindAt?_folder]
      by_cases hk : Text.lower n = k
      · rw [if_pos hk] at hmerged ⊢
        have hnone := kindAt?_cons_of_none (entryAt?_eq_none (hk ▸ hnew)) ks
        obtain h | ⟨-, h⟩ := ih hrest h
        · cases hnone.symm.trans h
        · split at hmerged
          next m j' hold =>
            rw [kindAt?_cons_of_folder hmerged] at h
            rw [kindAt?_cons_of_folder (show t.entryAt? k = some (.folder m j') from hold)]
            exact ihj hj h
          next =>
            rw [kindAt?_cons_of_folder hmerged] at h
            exact .inl h
      · rw [if_neg hk] at hmerged ⊢
        rw [← kindAt?_cons_congr (show _ = t.entryAt? k from hmerged)]
        exact ih hrest h

/-! ### Changed entries -/

section Changed

variable {ok : Entry → Bool} {f : Entry → Option Entry} (hf : ∀ e x, f e = some x → x.key = e.key)

include hf

theorem find?_changeFirst_of_nodup (h : (es.map Entry.key).Nodup) (n k : String) :
    (changeFirst (fun e => ok e && e.key == n) f es).find? (·.key == k) =
      if n = k then (es.find? (·.key == k)).bind fun e => if ok e then f e else some e
      else es.find? (·.key == k) := by
  induction es with
  | nil => simp [changeFirst]
  | cons e es ih =>
    rw [List.map_cons, List.nodup_cons] at h
    have ih := ih h.2
    have hlast : e.key = k → es.find? (·.key == k) = none := fun he => by
      rw [List.find?_eq_none]
      intro x hx hk
      exact h.1 (List.mem_map.mpr ⟨x, hx, by simpa [he] using hk⟩)
    rw [changeFirst]
    by_cases hn : e.key = n
    · cases hok : ok e with
      | true =>
        rw [if_pos (by simp [hn])]
        cases hx : f e with
        | none =>
          by_cases hk : n = k
          · simp [hk, hn, hok, hx, hlast (hn.trans hk)]
          · simp [hk, hn]
        | some x =>
          have hkey : x.key = n := (hf e x hx).trans hn
          by_cases hk : n = k
          · simp [hk, hn, hok, hx, hkey]
          · simp [hk, hn, hkey]
      | false =>
        rw [if_neg (by simp)]
        by_cases hk : n = k
        · simp [hk, hn, hok]
        · rw [List.find?_cons_of_neg (by simp [hn, hk]), List.find?_cons_of_neg (by simp [hn, hk]),
            ih]
    · rw [if_neg (by simp [hn])]
      by_cases hk : e.key = k
      · have hne : n ≠ k := fun he => hn (hk.trans he.symm)
        rw [if_neg hne, List.find?_cons_of_pos (by simp [hk]),
          List.find?_cons_of_pos (by simp [hk])]
      · rw [List.find?_cons_of_neg (by simp [hk]), List.find?_cons_of_neg (by simp [hk]), ih]

/-- In a tidy tree a change of the entry of a name is seen under that name only. -/
theorem entryAt?_changeChild_of_tidy (ht : t.Tidy) (n k : String) :
    (t.changeChild ok n f).entryAt? k =
      if Text.lower n = k then (t.entryAt? k).bind fun e => if ok e then f e else some e
      else t.entryAt? k := by
  simp only [changeChild, entryAt?, entries_ofEntries, Entry.isNamed_eq]
  exact find?_changeFirst_of_nodup hf (tidy_iff.mp ht).1 (Text.lower n) k

end Changed

/-- The entry of a name can be taken away. -/
theorem entryAt?_removeAt (ht : t.Tidy) (n k : String) :
    (t.removeAt [n]).entryAt? k = if Text.lower n = k then none else t.entryAt? k := by
  rw [removeAt, changeAt, entryAt?_changeChild_of_tidy (by simp) ht]
  simp

/-- The folder of a name can be emptied. -/
theorem entryAt?_emptyAt_of_ne (ht : t.Tidy) {n k : String} (hne : Text.lower n ≠ k) :
    (t.emptyAt [n]).entryAt? k = t.entryAt? k := by
  rw [emptyAt, changeAt, entryAt?_changeChild_of_tidy ?_ ht, if_neg hne]
  rintro (⟨m, o⟩ | ⟨m, j⟩) x hx <;> cases hx <;> rfl

/-- An entry with the content of a folder changed. -/
def changeContent (f : Tree → Tree) : Entry → Entry
  | .file n o => .file n o
  | .folder n i => .folder n (f i)

/-- Below a folder, what is taken away is taken from its content. -/
theorem entryAt?_removeAt_cons (ht : t.Tidy) (n m : String) (ns : List String) (k : String) :
    (t.removeAt (n :: m :: ns)).entryAt? k =
      if Text.lower n = k then (t.entryAt? k).map (changeContent (·.removeAt (m :: ns)))
      else t.entryAt? k := by
  rw [removeAt, changeAt]
  · rw [entryAt?_changeChild_of_tidy ?_ ht]
    · by_cases hk : Text.lower n = k
      · rw [if_pos hk, if_pos hk]
        rcases t.entryAt? k with _ | _ | _ <;> rfl
      · rw [if_neg hk, if_neg hk]
    · rintro (⟨m, o⟩ | ⟨m, j⟩) x hx <;> cases hx <;> rfl
  · simp

/-- With an entry goes all that is below it, and nothing else. -/
theorem kindAt?_removeAt (ht : t.Tidy) (hne : ns ≠ []) (p : List String) :
    (t.removeAt ns).kindAt? p = if ns.map Text.lower <+: p then none else t.kindAt? p := by
  cases p with
  | nil => simp [hne]
  | cons k ks =>
    induction ns generalizing t k ks with
    | nil => exact absurd rfl hne
    | cons n ns ih =>
      cases ns with
      | nil =>
        have hat := entryAt?_removeAt ht n k
        by_cases hk : Text.lower n = k
        · rw [if_pos hk] at hat
          rw [if_pos (by simp [hk]), kindAt?_cons_of_none hat]
        · rw [if_neg hk] at hat
          rw [if_neg (by simp [hk]), kindAt?_cons_congr hat]
      | cons m ns =>
        have hat := entryAt?_removeAt_cons ht n m ns k
        simp only [List.map_cons, List.cons_prefix_cons]
        by_cases hk : Text.lower n = k
        · rw [if_pos hk] at hat
          cases hold : t.entryAt? k with
          | none =>
            rw [hold, Option.map_none] at hat
            rw [kindAt?_cons_of_none hat, kindAt?_cons_of_none hold, ite_self]
          | some e =>
            rw [hold, Option.map_some] at hat
            cases e with
            | file x o =>
              have hnone :
                  (m :: ns).map Text.lower <+: ks → t.kindAt? (k :: ks) = none := fun hp => by
                cases ks with
                | nil => simp at hp
                | cons => rw [kindAt?_cons, hold]; rfl
              rw [kindAt?_cons_congr (hat.trans hold.symm)]
              split
              next hp => exact hnone hp.2
              next => rfl
            | folder x j =>
              rw [kindAt?_cons_of_folder hat, kindAt?_cons_of_folder hold]
              cases ks with
              | nil => simp
              | cons k' ks =>
                have hj : j.Tidy := ht.of_entryAt? hold
                simp only [hk, true_and, ih hj (by simp) k' ks, List.map_cons]
        · rw [if_neg hk] at hat
          rw [kindAt?_cons_congr hat, if_neg fun hp => hk hp.1]

/-! ### Moves -/

/-- A file of a tree with a changed folder is one of that folder, or one that was there before. -/
theorem kindAt?_inFolder_file {f : Tree → Tree} (h : inFolder f t ns = .ok t')
    (hp : t'.kindAt? p = some (.file o)) :
    t.kindAt? p = some (.file o) ∨
      ∃ i q, p = ns.map Text.lower ++ q ∧ (f i).kindAt? q = some (.file o) ∧
        (i = nil ∨ ∀ q, t.kindAt? (ns.map Text.lower ++ q) = i.kindAt? q) := by
  obtain ⟨m, i, hi, hbefore⟩ := reach_inFolder (r := "") h
  have hin : ∀ {t : Tree} {n : String} {j : Tree} (q : List String),
      t.at? (ns.map Text.lower) = some (.folder n j) →
        t.kindAt? (ns.map Text.lower ++ q) = j.kindAt? q := fun q hj => by
    rw [kindAt?_append_of_at? hj]
    cases q <;> rfl
  by_cases hbelow : ns.map Text.lower <+: p
  · obtain ⟨q, rfl⟩ := hbelow
    rw [hin q hi] at hp
    refine .inr ⟨i, q, rfl, hp, ?_⟩
    obtain ⟨m', hi'⟩ | ⟨-, rfl⟩ := hbefore
    · exact .inr fun q => hin q hi'
    · exact .inl rfl
  · by_cases habove : p <+: ns.map Text.lower
    · -- on the way to the folder there are folders only
      obtain ⟨q, hq⟩ := habove
      rw [← hq] at hi
      have hreach : (t'.at? p).bind (·.reach q) = some (.folder m (f i)) :=
        (at?_append t' p q).symm.trans hi
      obtain ⟨x, hx, hreach⟩ := Option.bind_eq_some_iff.mp hreach
      obtain ⟨n, j, rfl, -⟩ := Entry.exists_folder_of_reach hreach fun hnil =>
        hbelow (by rw [← hq, hnil, List.append_nil])
      rw [kindAt?, hx] at hp
      cases hp
    · refine .inl ?_
      have hsame : t'.at? p = t.at? p := reach_inFolder_of_not h habove hbelow
      rwa [kindAt?, hsame] at hp

theorem kind_reach_rename (e : Entry) (n : String) (r : List String) :
    ((e.rename n).reach r).map Entry.kind = (e.reach r).map Entry.kind := by
  cases e <;> cases r <;> rfl

theorem key_rename (e : Entry) (n : String) : (e.rename n).key = Text.lower n := by
  cases e <;> rfl

/-- A file that stands at a place after a move stood there before and was not moved, or it was moved
there. -/
theorem kindAt?_move_file {source : List String} {path : String} (ht : t.Tidy) (hne : source ≠ [])
    (he : t.at? (source.map Text.lower) = some e) (h : t.move source e path = .ok t')
    (hp : t'.kindAt? p = some (.file o)) :
    t.kindAt? p = some (.file o) ∧ (t' = t ∨ ¬ source.map Text.lower <+: p) ∨
      ∃ r, p = (targetNames e path).map Text.lower ++ r ∧
        t.kindAt? (source.map Text.lower ++ r) = some (.file o) := by
  simp only [move] at h
  split at h
  next => cases h
  next n hn =>
    split at h
    next =>
      cases h
      exact .inl ⟨hp, .inl rfl⟩
    next =>
      cases hmade : inFolder id t (targetNames e path).dropLast with
      | error => simp [hmade, Except.bind] at h
      | ok made =>
        have hremoved : ∀ {q}, (made.removeAt source).kindAt? q = some (.file o) →
            t.kindAt? q = some (.file o) ∧ ¬ source.map Text.lower <+: q := fun {q} hq => by
          rw [kindAt?_removeAt (ht.inFolder (fun _ hi => hi) hmade) hne] at hq
          split at hq
          next => cases hq
          next hnot =>
            refine ⟨?_, hnot⟩
            obtain hq | ⟨i, q', rfl, hi, rfl | hold⟩ := kindAt?_inFolder_file hmade hq
            · exact hq
            · cases q' <;> cases hi
            · rw [hold]
              exact hi
        simp only [hmade, Except.bind] at h
        split at h
        next =>
          cases h
          exact .inl ((hremoved hp).imp_right .inr)
        next =>
          obtain hp | ⟨i, q, rfl, hi, hold⟩ := kindAt?_inFolder_file h hp
          · exact .inl ((hremoved hp).imp_right .inr)
          · cases q with
            | nil => cases hi
            | cons k ks =>
              rw [kindAt?_cons, entryAt?_put, key_rename] at hi
              by_cases hk : Text.lower n = k
              · -- the file is below the entry that was moved
                rw [if_pos hk, Option.bind_some, kind_reach_rename] at hi
                refine .inr ⟨ks, ?_, by rw [kindAt?_append_of_at? he]; exact hi⟩
                have htarget : targetNames e path = (targetNames e path).dropLast ++ [n] :=
                  (List.dropLast_append_getLast? n hn).symm
                rw [htarget, List.map_append, List.map_singleton, ← htarget, hk, List.append_assoc,
                  List.singleton_append]
              · rw [if_neg hk] at hi
                obtain rfl | hold := hold
                · cases hi
                · exact .inl ((hremoved (by rw [hold]; exact hi)).imp_right .inr)

end ModWizard.Tree
