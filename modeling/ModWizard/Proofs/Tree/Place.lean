import Mathlib.Data.List.Infix
import ModWizard.Proofs.Text
import ModWizard.Tree.Edit

/-!
# Places in a tree

A place is a row of names in small letters.  What stands at a place is reached from folder to folder
(`Tree.at?`).  A file that is added to a tree stands at its place; the places that lead to it are
then folders with content, nothing stands behind it, and at every other place nothing changes.
-/

namespace ModWizard

namespace Entry

/-- The name of an entry in small letters. -/
def key (e : Entry) : String := Text.lower e.name

theorem isNamed_eq (n : String) (e : Entry) : e.isNamed n = (e.key == Text.lower n) := rfl

theorem key_file (n : String) (o : Option Nat) : (file n o).key = Text.lower n := rfl

theorem key_folder (n : String) (t : Tree) : (folder n t).key = Text.lower n := rfl

end Entry

namespace Tree

/-- The place to which a path leads. -/
def place (path : String) : List String := (pathNames path).map Text.lower

theorem place_eq_nil_iff {path : String} : place path = [] ↔ pathNames path = [] := by
  rw [place, List.map_eq_nil_iff]

/-- The first entry of a name in small letters. -/
def entryAt? (t : Tree) (k : String) : Option Entry := t.entries.find? (·.key == k)

theorem child?_eq_entryAt? (t : Tree) (n : String) :
    t.child? (fun _ => true) n = t.entryAt? (Text.lower n) := by
  simp only [child?, entryAt?, Entry.isNamed_eq, Bool.true_and]

end Tree

/-- A file with its number, or a folder. -/
inductive Kind
  | file (id : Option Nat)
  | folder
  deriving DecidableEq

/-- What an entry is, but for its name and content. -/
def Entry.kind : Entry → Kind
  | file _ o => .file o
  | folder .. => .folder

/-- What is reached from an entry by the names of a place. -/
def Entry.reach : Entry → List String → Option Entry
  | e, [] => some e
  | .file .., _ :: _ => none
  | .folder _ t, k :: ks => (t.entryAt? k).bind (reach · ks)

namespace Entry

@[simp] theorem reach_nil (e : Entry) : e.reach [] = some e := by
  cases e <;> rfl

@[simp] theorem reach_file_cons (n : String) (o : Option Nat) (k : String) (ks : List String) :
    (file n o).reach (k :: ks) = none := rfl

@[simp] theorem reach_folder_cons (n : String) (t : Tree) (k : String) (ks : List String) :
    (folder n t).reach (k :: ks) = (t.entryAt? k).bind (·.reach ks) := rfl

theorem reach_append (e : Entry) (p q : List String) :
    e.reach (p ++ q) = (e.reach p).bind (·.reach q) := by
  induction p generalizing e with
  | nil => simp
  | cons k p ih =>
    cases e with
    | file => rfl
    | folder n t =>
      rw [List.cons_append, reach_folder_cons, reach_folder_cons, Option.bind_assoc]
      exact congrArg _ (funext ih)

/-- Only from a folder with content something is reached. -/
theorem exists_folder_of_reach {e x : Entry} {p : List String} (h : e.reach p = some x)
    (hne : p ≠ []) : ∃ n t, e = folder n t ∧ t ≠ .nil := by
  obtain ⟨k, ks, rfl⟩ := List.exists_cons_of_ne_nil hne
  cases e with
  | file => cases h
  | folder n t =>
    refine ⟨n, t, rfl, ?_⟩
    rintro rfl
    cases h

end Entry

namespace Tree

variable {t t' : Tree} {ns p : List String}

/-- What stands at a place of a tree. -/
def at? (t : Tree) (p : List String) : Option Entry := (Entry.folder "" t).reach p

@[simp] theorem at?_nil (t : Tree) : t.at? [] = some (.folder "" t) := rfl

theorem at?_append (t : Tree) (p q : List String) : t.at? (p ++ q) = (t.at? p).bind (·.reach q) :=
  Entry.reach_append _ p q

/-- What stands at a place, but for its names and content. -/
def kindAt? (t : Tree) (p : List String) : Option Kind := (t.at? p).map Entry.kind

/-! ### Changed rows of entries -/

theorem entryAt?_ofEntries_concat (t : Tree) (e : Entry) (k : String) :
    (ofEntries (t.entries ++ [e])).entryAt? k =
      (t.entryAt? k).or (if e.key = k then some e else none) := by
  simp only [entryAt?, entries_ofEntries, List.find?_append, List.find?_singleton, beq_iff_eq]

theorem find?_changeFirst {es : List Entry} {k : String} {e x : Entry}
    (h : es.find? (·.key == k) = some e) (hx : x.key = k) (k' : String) :
    (changeFirst (·.key == k) (fun _ => some x) es).find? (·.key == k') =
      if k = k' then some x else es.find? (·.key == k') := by
  induction es with
  | nil => cases h
  | cons y es ih =>
    by_cases hy : y.key = k
    · rw [changeFirst, if_pos (by simp [hy]), Option.toList_some, List.singleton_append]
      by_cases hk : k = k'
      · rw [if_pos hk, List.find?_cons_of_pos (by simp [hx, hk])]
      · rw [if_neg hk, List.find?_cons_of_neg (by simp [hx, hk]),
          List.find?_cons_of_neg (by simp [hy, hk])]
    · rw [List.find?_cons_of_neg (by simp [hy])] at h
      rw [changeFirst, if_neg (by simp [hy])]
      by_cases hk : y.key = k'
      · have hne : k ≠ k' := fun he => hy (hk.trans he.symm)
        rw [if_neg hne, List.find?_cons_of_pos (by simp [hk]),
          List.find?_cons_of_pos (by simp [hk])]
      · rw [List.find?_cons_of_neg (by simp [hk]), List.find?_cons_of_neg (by simp [hk]), ih h]

theorem entryAt?_changeChild {n : String} {e x : Entry} (h : t.entryAt? (Text.lower n) = some e)
    (hx : x.key = Text.lower n) (k : String) :
    (t.changeChild (fun _ => true) n fun _ => some x).entryAt? k =
      if Text.lower n = k then some x else t.entryAt? k := by
  simp only [changeChild, entryAt?, entries_ofEntries, Entry.isNamed_eq, Bool.true_and]
  exact find?_changeFirst h hx k

theorem find?_putAmong (e : Entry) (es : List Entry) (k : String) :
    (putAmong e es).find? (·.key == k) = if e.key = k then some e else es.find? (·.key == k) := by
  have hkey : Text.lower e.name = e.key := rfl
  induction es with
  | nil => simp [putAmong]
  | cons x es ih =>
    rw [putAmong, Entry.isNamed_eq, hkey]
    by_cases hx : x.key = e.key
    · rw [if_pos (by simp [hx])]
      by_cases hk : e.key = k
      · rw [if_pos hk, List.find?_cons_of_pos (by simp [hk])]
      · rw [if_neg hk, List.find?_cons_of_neg (by simp [hk]),
          List.find?_cons_of_neg (by simp [hx, hk])]
    · rw [if_neg (by simp [hx])]
      by_cases hk : x.key = k
      · have hne : e.key ≠ k := fun he => hx (hk.trans he.symm)
        rw [if_neg hne, List.find?_cons_of_pos (by simp [hk]),
          List.find?_cons_of_pos (by simp [hk])]
      · rw [List.find?_cons_of_neg (by simp [hk]), List.find?_cons_of_neg (by simp [hk]), ih]

/-- An entry that is put into a tree stands under its name. -/
theorem entryAt?_put (t : Tree) (e : Entry) (k : String) :
    (t.put e).entryAt? k = if e.key = k then some e else t.entryAt? k := by
  rw [entryAt?, entries_put, find?_putAmong]
  rfl

theorem entryAt?_key {k : String} {e : Entry} (h : t.entryAt? k = some e) : e.key = k := by
  simpa using List.find?_some (show t.entries.find? (·.key == k) = some e from h)

/-! ### A changed folder -/

variable {f : Tree → Tree}

/-- What a change of a folder below a name does to the tree: the folder of that name is changed, or
is made and changed. -/
theorem inFolder_cons {n : String} (h : inFolder f t (n :: ns) = .ok t') :
    ∃ m i i', inFolder f i ns = .ok i' ∧
      (t.entryAt? (Text.lower n) = some (.folder m i) ∨
        t.entryAt? (Text.lower n) = none ∧ i = .nil) ∧
      ∀ k, t'.entryAt? k = if Text.lower n = k then some (.folder m i') else t.entryAt? k := by
  rw [inFolder, child?_eq_entryAt?] at h
  cases hn : t.entryAt? (Text.lower n) with
  | none =>
    simp only [hn] at h
    cases hi : inFolder f nil ns with
    | error => simp [hi, Except.map] at h
    | ok i' =>
      obtain rfl : ofEntries (t.entries ++ [.folder n i']) = t' := by
        simpa [hi, Except.map] using h
      refine ⟨n, nil, i', hi, .inr ⟨rfl, rfl⟩, fun k => ?_⟩
      rw [entryAt?_ofEntries_concat]
      by_cases hk : Text.lower n = k
      · rw [if_pos hk, ← hk, hn]
        simp [Entry.key, Entry.name]
      · have hkey : ¬ (Entry.folder n i').key = k := hk
        simp [hk, hkey]
  | some e =>
    cases e with
    | file => simp [hn] at h
    | folder m i =>
      simp only [hn] at h
      cases hi : inFolder f i ns with
      | error => simp [hi, Except.map] at h
      | ok i' =>
        obtain rfl : (t.changeChild (fun _ => true) n fun _ => some (.folder m i')) = t' := by
          simpa [hi, Except.map] using h
        have hkey : (Entry.folder m i).key = Text.lower n := entryAt?_key hn
        exact ⟨m, i, i', hi, .inl rfl, entryAt?_changeChild hn hkey⟩

/-- A folder can be changed if no file stands on the way to it or in its place. -/
theorem exists_inFolder_iff {r : String} :
    (∃ t', inFolder f t ns = .ok t') ↔
      ∀ p, p <+: ns.map Text.lower → ∀ e, (Entry.folder r t).reach p = some e →
        e.isFolder = true := by
  induction ns generalizing t r with
  | nil =>
    refine iff_of_true ⟨_, rfl⟩ fun p hp e he => ?_
    obtain rfl := List.prefix_nil.mp hp
    cases he
    rfl
  | cons n ns ih =>
    rw [inFolder, child?_eq_entryAt?]
    have hmap : ∀ (x : Except Fault Tree) (g : Tree → Tree),
        (∃ t', x.map g = .ok t') ↔ ∃ i, x = .ok i := by
      rintro (f | i) g <;> simp [Except.map]
    -- what is required below the name
    have hcons : (∀ p, p <+: (n :: ns).map Text.lower → ∀ e,
        (Entry.folder r t).reach p = some e → e.isFolder = true) ↔
        ∀ x, t.entryAt? (Text.lower n) = some x →
          ∀ p, p <+: ns.map Text.lower → ∀ e, x.reach p = some e → e.isFolder = true := by
      constructor
      · intro h x hx p hp e he
        exact h (Text.lower n :: p) (by simpa using hp) e (by simpa [hx] using he)
      · intro h p hp e he
        cases p with
        | nil =>
          cases he
          rfl
        | cons k p =>
          obtain ⟨rfl, hbelow⟩ := List.cons_prefix_cons.mp hp
          obtain ⟨x, hx, he⟩ := Option.bind_eq_some_iff.mp he
          exact h x hx p hbelow e he
    rw [hcons]
    cases hn : t.entryAt? (Text.lower n) with
    | none =>
      simp only [hmap, ih (r := r)]
      refine iff_of_true (fun p _ e he => ?_) (by simp)
      cases p with
      | nil =>
        cases he
        rfl
      | cons => cases he
    | some x =>
      cases x with
      | file m o =>
        refine iff_of_false (by simp) fun h => ?_
        cases h _ rfl [] List.nil_prefix _ rfl
      | folder m i => simp [hmap, ih (r := m)]

/-- The folder that was changed stands in its place. -/
theorem reach_inFolder {r : String} (h : inFolder f t ns = .ok t') :
    ∃ m i, (Entry.folder r t').reach (ns.map Text.lower) = some (.folder m (f i)) ∧
      ((∃ m, (Entry.folder r t).reach (ns.map Text.lower) = some (.folder m i)) ∨
        (Entry.folder r t).reach (ns.map Text.lower) = none ∧ i = .nil) := by
  induction ns generalizing t t' r with
  | nil =>
    cases h
    exact ⟨r, t, rfl, .inl ⟨r, rfl⟩⟩
  | cons n ns ih =>
    obtain ⟨m, i, i', hi, hold, hnew⟩ := inFolder_cons h
    obtain ⟨m', j, hj, hbefore⟩ := ih (r := m) hi
    refine ⟨m', j, by simpa [hnew] using hj, ?_⟩
    rw [List.map_cons, Entry.reach_folder_cons]
    obtain hold | ⟨hold, rfl⟩ := hold
    · simpa [hold] using hbefore
    · refine .inr ⟨by simp [hold], ?_⟩
      -- in a folder that was just made there is nothing
      obtain ⟨m'', hj'⟩ | ⟨-, rfl⟩ := hbefore
      · cases ns with
        | nil =>
          cases hj'
          rfl
        | cons => cases hj'
      · rfl

/-- At places that neither lead to the folder nor into it nothing changes. -/
theorem reach_inFolder_of_not {r : String} (h : inFolder f t ns = .ok t')
    (hp : ¬ p <+: ns.map Text.lower) (hns : ¬ ns.map Text.lower <+: p) :
    (Entry.folder r t').reach p = (Entry.folder r t).reach p := by
  induction ns generalizing t t' r p with
  | nil => exact absurd List.nil_prefix hns
  | cons n ns ih =>
    obtain ⟨m, i, i', hi, hold, hnew⟩ := inFolder_cons h
    cases p with
    | nil => exact absurd List.nil_prefix hp
    | cons k p =>
      rw [Entry.reach_folder_cons, Entry.reach_folder_cons, hnew]
      split
      next hk =>
        subst hk
        rw [List.map_cons, List.cons_prefix_cons] at hp hns
        have ih := ih (r := m) hi (fun h => hp ⟨rfl, h⟩) fun h => hns ⟨rfl, h⟩
        obtain hold | ⟨hold, rfl⟩ := hold
        · simpa [hold] using ih
        · rw [hold, Option.bind_some, ih, Option.bind_none]
          cases p with
          | nil => exact absurd ⟨rfl, List.nil_prefix⟩ hp
          | cons => rfl
      next => rfl

/-! ### An added file -/

theorem addFile_concat (t : Tree) (ns : List String) (n : String) :
    t.addFile (ns ++ [n]) = inFolder (·.put (.file n none)) t ns := by
  simp [addFile, putAt]

/-- Whether no file stands on the way to a place. -/
def Open (t : Tree) (q : List String) : Prop :=
  ∀ p, p <+: q → p ≠ q → ∀ e, t.at? p = some e → e.isFolder = true

instance (t : Tree) (q : List String) : Decidable (t.Open q) :=
  decidable_of_iff (∀ p ∈ q.inits, p ≠ q → (t.at? p).all Entry.isFolder = true) <| by
    simp only [Open, List.mem_inits, Option.all_eq_true]

/-- A file can be added at a path with a name if no file stands on the way to it. -/
theorem exists_addFile_iff :
    (∃ t', t.addFile ns = .ok t') ↔ ns ≠ [] ∧ t.Open (ns.map Text.lower) := by
  obtain rfl | ⟨ns, n, rfl⟩ := List.eq_nil_or_concat ns
  · exact iff_of_false (by rintro ⟨t', ht⟩; cases ht) (by simp)
  · rw [List.concat_eq_append, addFile_concat, exists_inFolder_iff (r := "")]
    simp only [Open, List.map_append, List.map_singleton, ne_eq, List.append_eq_nil_iff,
      List.cons_ne_self, and_false, not_false_eq_true, true_and]
    refine forall_congr' fun p => ?_
    rw [List.prefix_concat_iff]
    constructor
    · rintro h (rfl | hp) hne
      · exact absurd rfl hne
      · exact h hp
    · intro h hp
      refine h (.inr hp) fun he => ?_
      have hle := hp.length_le
      rw [he, List.length_append, List.length_singleton] at hle
      omega

variable (h : t.addFile ns = .ok t')

include h

/-- The file stands at its place. -/
theorem at?_addFile : ∃ n, t'.at? (ns.map Text.lower) = some (.file n none) := by
  obtain rfl | ⟨ns, n, rfl⟩ := List.eq_nil_or_concat ns
  · cases h
  · rw [List.concat_eq_append, addFile_concat] at h
    obtain ⟨m, i, hi, -⟩ := reach_inFolder (r := "") h
    refine ⟨n, ?_⟩
    rw [List.concat_eq_append, List.map_append, at?_append, at?, hi, Option.bind_some,
      List.map_singleton,
      Entry.reach_folder_cons, entryAt?_put, if_pos (Entry.key_file n none)]
    rfl

/-- The places that lead to the file are folders with content. -/
theorem at?_addFile_above (hp : p <+: ns.map Text.lower) (hne : p ≠ ns.map Text.lower) :
    ∃ m i, t'.at? p = some (.folder m i) ∧ i ≠ .nil := by
  obtain ⟨q, hq⟩ := hp
  obtain ⟨n, hn⟩ := at?_addFile h
  rw [← hq, at?_append] at hn
  obtain ⟨e, he, hreach⟩ := Option.bind_eq_some_iff.mp hn
  obtain ⟨m, i, rfl, hi⟩ := Entry.exists_folder_of_reach hreach fun hnil =>
    hne (by simpa [hnil] using hq)
  exact ⟨m, i, he, hi⟩

/-- Behind the file nothing stands. -/
theorem at?_addFile_below (hp : ns.map Text.lower <+: p) (hne : p ≠ ns.map Text.lower) :
    t'.at? p = none := by
  obtain ⟨q, rfl⟩ := hp
  obtain ⟨n, hn⟩ := at?_addFile h
  cases q with
  | nil => exact absurd (List.append_nil _) hne
  | cons => rw [at?_append, hn, Option.bind_some, Entry.reach_file_cons]

/-- At all other places nothing changes. -/
theorem at?_addFile_of_not (hp : ¬ p <+: ns.map Text.lower) (hns : ¬ ns.map Text.lower <+: p) :
    t'.at? p = t.at? p := by
  obtain rfl | ⟨ns, n, rfl⟩ := List.eq_nil_or_concat ns
  · cases h
  · rw [List.concat_eq_append] at h hp hns
    rw [addFile_concat] at h
    rw [List.map_append, List.map_singleton] at hp hns
    by_cases hin : ns.map Text.lower <+: p
    · obtain ⟨q, rfl⟩ := hin
      obtain ⟨m, i, hi, hbefore⟩ := reach_inFolder (r := "") h
      cases q with
      | nil => exact absurd (by simp) hp
      | cons k q =>
        have hk : Text.lower n ≠ k := by
          rintro rfl
          exact hns (by simp)
        have hkey : ¬ (Entry.file n none).key = k := hk
        rw [at?_append, at?_append, at?, at?, hi, Option.bind_some, Entry.reach_folder_cons,
          entryAt?_put, if_neg hkey]
        obtain ⟨m', hbefore⟩ | ⟨hbefore, rfl⟩ := hbefore <;> rw [hbefore] <;> rfl
    · refine reach_inFolder_of_not h (fun hout => hp ?_) hin
      exact hout.trans (List.prefix_append _ _)

/-- What an added file leaves at a place, but for the names. -/
theorem kindAt?_addFile (p : List String) :
    t'.kindAt? p =
      if p = ns.map Text.lower then some (.file none)
      else if p <+: ns.map Text.lower then some .folder
      else if ns.map Text.lower <+: p then none
      else t.kindAt? p := by
  unfold kindAt?
  split
  next hp =>
    obtain ⟨n, hn⟩ := at?_addFile h
    rw [hp, hn]
    rfl
  next hp =>
    split
    next habove =>
      obtain ⟨m, i, hi, -⟩ := at?_addFile_above h habove hp
      rw [hi]
      rfl
    next habove =>
      split
      next hbelow => rw [at?_addFile_below h hbelow hp, Option.map_none]
      next hbelow => rw [at?_addFile_of_not h habove hbelow]

/-- The way to a place is open as before, unless the file stands on it. -/
theorem open_addFile_iff {q : List String} :
    t'.Open q ↔ t.Open q ∧ ¬ (ns.map Text.lower <+: q ∧ ns.map Text.lower ≠ q) := by
  have hopen : t.Open (ns.map Text.lower) := (exists_addFile_iff.mp ⟨t', h⟩).2
  obtain ⟨n, hn⟩ := at?_addFile h
  have hblocked :
      t'.Open q → ¬ (ns.map Text.lower <+: q ∧ ns.map Text.lower ≠ q) := fun hq hon => by
    cases hq _ hon.1 hon.2 _ hn
  have hbehind : ∀ p, ns.map Text.lower <+: p → p <+: q → p ≠ q →
      ns.map Text.lower <+: q ∧ ns.map Text.lower ≠ q := fun p hns hpq hne =>
    ⟨hns.trans hpq, fun he => hne (hpq.eq_of_length_le (he ▸ hns.length_le))⟩
  constructor
  · refine fun hq => ⟨fun p hpq hne e he => ?_, hblocked hq⟩
    by_cases hbehindp : ns.map Text.lower <+: p
    · exact absurd (hbehind p hbehindp hpq hne) (hblocked hq)
    · by_cases habove : p <+: ns.map Text.lower
      · exact hopen p habove (fun hp => hbehindp (hp ▸ List.prefix_rfl)) e he
      · exact hq p hpq hne e (by rw [at?_addFile_of_not h habove hbehindp, he])
  · refine fun hq p hpq hne e he => ?_
    have hbehindp : ¬ ns.map Text.lower <+: p := fun hp => hq.2 (hbehind p hp hpq hne)
    by_cases habove : p <+: ns.map Text.lower
    · obtain ⟨m, i, hi, -⟩ := at?_addFile_above h habove fun hp => hbehindp (hp ▸ List.prefix_rfl)
      cases he.symm.trans hi
      rfl
    · exact hq.1 p hpq hne e (by rw [← at?_addFile_of_not h habove hbehindp, he])

end Tree

end ModWizard
