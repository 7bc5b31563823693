import Mathlib.Data.List.Basic
import ModWizard.Tweak.Standard

/-!
# Files with sections as one sorted row

A file with sections is written section by section, and every section is sorted for itself.  The
text is the same as if the whole list had been sorted once, by section and then by setting, with the
tweaks of one setting in their order, and a header had been written wherever the section changes
(`render_eq_text_items`).  Such a row is unique (`StableSort.eq`), so the text does not hang on the
order of tweaks about different settings.
-/

namespace ModWizard.Tweak

variable {ts ts' ws ws' : List Tweak} {s k : String} {t u : Tweak}

/-! ### Tweaks of one setting -/

/-- Whether a tweak is about a setting of a section. -/
def isAbout (s k : String) (t : Tweak) : Bool := t.sectionName = s && t.setting = k

theorem isAbout_iff : t.isAbout s k = true ↔ t.sectionName = s ∧ t.setting = k := by
  simp [isAbout]

theorem isAbout_self (t : Tweak) : t.isAbout t.sectionName t.setting = true :=
  isAbout_iff.mpr ⟨rfl, rfl⟩

/-- That some tweaks are others in an order that keeps the order of those about the same setting. -/
def Rearranged (ts ws : List Tweak) : Prop :=
  ∀ s k, ws.filter (isAbout s k) = ts.filter (isAbout s k)

theorem Rearranged.symm (h : Rearranged ts ws) : Rearranged ws ts := fun s k => (h s k).symm

theorem Rearranged.trans (h : Rearranged ts ts') (h' : Rearranged ts' ws) : Rearranged ts ws :=
  fun s k => (h' s k).trans (h s k)

/-- The settings of the tweaks are all that has to be looked at. -/
theorem rearranged_iff :
    Rearranged ts ws ↔ ∀ t ∈ ts ++ ws,
      ws.filter (isAbout t.sectionName t.setting) =
        ts.filter (isAbout t.sectionName t.setting) := by
  refine ⟨fun h t _ => h t.sectionName t.setting, fun h s k => ?_⟩
  by_cases hex : ∃ t ∈ ts ++ ws, t.isAbout s k = true
  · obtain ⟨t, ht, habout⟩ := hex
    obtain ⟨rfl, rfl⟩ := isAbout_iff.mp habout
    exact h t ht
  · have hnone : ∀ us, us ⊆ ts ++ ws → us.filter (isAbout s k) = [] := fun us hus =>
      List.filter_eq_nil_iff.mpr fun t ht habout => hex ⟨t, hus ht, habout⟩
    rw [hnone ws (List.subset_append_right ts ws), hnone ts (List.subset_append_left ts ws)]

instance (ts ws : List Tweak) : Decidable (Rearranged ts ws) := decidable_of_iff' _ rearranged_iff

/-- No tweak is lost or repeated, for each is about some setting. -/
theorem Rearranged.perm (h : Rearranged ts ws) : ws.Perm ts := by
  rw [List.perm_iff_count]
  intro t
  rw [← List.count_filter (isAbout_self t), h, List.count_filter (isAbout_self t)]

theorem Rearranged.of_cons (h : Rearranged (t :: ts) (t :: ws)) : Rearranged ts ws := by
  intro s k
  have hcons := h s k
  rw [List.filter_cons, List.filter_cons] at hcons
  split at hcons
  next => exact (List.cons.inj hcons).2
  next => exact hcons

/-! ### Sorting by a text -/

section Sorting

variable {α : Type} {f : α → String} {l : List α}

theorem le_trans_on (f : α → String) (a b c : α) (h : decide (f a ≤ f b) = true)
    (h' : decide (f b ≤ f c) = true) : decide (f a ≤ f c) = true :=
  decide_eq_true (String.le_trans (of_decide_eq_true h) (of_decide_eq_true h'))

theorem le_total_on (f : α → String) (a b : α) :
    (decide (f a ≤ f b) || decide (f b ≤ f a)) = true := by
  simpa using String.le_total (f a) (f b)

theorem pairwise_mergeSort_on (f : α → String) (l : List α) :
    (l.mergeSort fun a b => f a ≤ f b).Pairwise fun a b => f a ≤ f b := by
  simpa using List.pairwise_mergeSort (le_trans_on f) (le_total_on f) l

/-- A sort keeps the order of what is in order already. -/
theorem filter_mergeSort_on {p : α → Bool} (h : (l.filter p).Pairwise fun a b => f a ≤ f b) :
    (l.mergeSort fun a b => f a ≤ f b).filter p = l.filter p := by
  have hsub : (l.filter p).Sublist (l.mergeSort fun a b => f a ≤ f b) :=
    List.sublist_mergeSort (le_trans_on f) (le_total_on f) (by simpa using h) List.filter_sublist
  have hfilter := hsub.filter p
  rw [List.filter_filter, List.filter_congr fun a _ => Bool.and_self (p a)] at hfilter
  exact (hfilter.eq_of_length ((List.mergeSort_perm l _).filter p).length_eq.symm).symm

end Sorting

/-! ### The order of the file -/

/-- That a tweak may stand before another: its section comes first, or it is the same and its
setting comes first or is the same. -/
def Before (t u : Tweak) : Prop :=
  t.sectionName < u.sectionName ∨ t.sectionName = u.sectionName ∧ t.setting ≤ u.setting

instance (t u : Tweak) : Decidable (Before t u) := inferInstanceAs (Decidable (_ ∨ _ ∧ _))

theorem Before.refl (t : Tweak) : Before t t := .inr ⟨rfl, String.le_refl _⟩

/-- Tweaks of which each may stand before the other are about the same setting. -/
theorem Before.isAbout (h : Before t u) (h' : Before u t) :
    u.isAbout t.sectionName t.setting = true := by
  rw [isAbout_iff]
  obtain hlt | ⟨hs, hk⟩ := h
  · obtain hlt' | ⟨hs', -⟩ := h'
    · exact absurd (String.lt_trans hlt hlt') (String.lt_irrefl _)
    · exact absurd (hs' ▸ hlt) (String.lt_irrefl _)
  · obtain hlt' | ⟨-, hk'⟩ := h'
    · exact absurd (hs ▸ hlt') (String.lt_irrefl _)
    · exact ⟨hs.symm, String.le_antisymm hk' hk⟩

theorem Before.of_mem (h : (t :: ts).Pairwise Before) (hu : u ∈ t :: ts) : Before t u := by
  obtain rfl | hu := List.mem_cons.mp hu
  · exact Before.refl _
  · exact List.rel_of_pairwise_cons h hu

/-- That a row is some tweaks in the order of their sections and settings, those about the same
setting as they came. -/
structure StableSort (ts ws : List Tweak) : Prop where
  sorted : ws.Pairwise Before
  stable : Rearranged ts ws

instance (ts ws : List Tweak) : Decidable (StableSort ts ws) :=
  decidable_of_iff (ws.Pairwise Before ∧ Rearranged ts ws)
    ⟨fun h => ⟨h.1, h.2⟩, fun h => ⟨h.sorted, h.stable⟩⟩

/-- There is one such row at most. -/
theorem StableSort.eq (h : StableSort ts ws) (h' : StableSort ts ws') : ws' = ws := by
  obtain ⟨hs, hr⟩ := h
  obtain ⟨hs', hr'⟩ := h'
  have hws : Rearranged ws ws' := hr.symm.trans hr'
  clear hr hr'
  induction ws generalizing ws' with
  | nil => exact hws.perm.eq_nil
  | cons t ws ih =>
    cases ws' with
    | nil => exact hws.perm.symm.eq_nil.symm
    | cons u us =>
      -- each head is a member of the other row, so it is about the setting of the other head
      have htu := Before.of_mem hs (hws.perm.mem_iff.mp List.mem_cons_self)
      have hut := Before.of_mem hs' (hws.perm.mem_iff.mpr List.mem_cons_self)
      have hhead := hws t.sectionName t.setting
      rw [List.filter_cons_of_pos (htu.isAbout hut),
        List.filter_cons_of_pos (isAbout_self t)] at hhead
      obtain rfl := (List.cons.inj hhead).1
      rw [ih hs.of_cons hs'.of_cons hws.of_cons]

namespace Standard

/-! ### The sections in order -/

theorem nodup_eraseDups (l : List String) : l.eraseDups.Nodup := by
  cases l with
  | nil => simp
  | cons a l =>
    rw [List.eraseDups_cons, List.nodup_cons, List.mem_eraseDups]
    exact ⟨by simp, nodup_eraseDups _⟩
termination_by l.length
decreasing_by exact Nat.lt_succ_of_le (List.length_filter_le _ _)

theorem mem_sectionNames_iff : s ∈ sectionNames ts ↔ ∃ t ∈ ts, t.sectionName = s := by
  simp [sectionNames, List.mem_mergeSort]

theorem nodup_sectionNames (ts : List Tweak) : (sectionNames ts).Nodup :=
  (List.mergeSort_perm _ _).nodup_iff.mpr (nodup_eraseDups _)

theorem pairwise_sectionNames (ts : List Tweak) : (sectionNames ts).Pairwise (· < ·) := by
  have hle : (sectionNames ts).Pairwise (· ≤ ·) := pairwise_mergeSort_on id _
  exact (hle.and (nodup_sectionNames ts)).imp fun h => Std.lt_of_le_of_ne h.1 h.2

theorem mem_inSection_iff : t ∈ inSection ts s ↔ t ∈ ts ∧ t.sectionName = s := by
  simp [inSection, List.mem_mergeSort]

theorem inSection_ne_nil (h : s ∈ sectionNames ts) : inSection ts s ≠ [] := by
  obtain ⟨t, ht, hs⟩ := mem_sectionNames_iff.mp h
  exact List.ne_nil_of_mem (mem_inSection_iff.mpr ⟨ht, hs⟩)

/-- The tweaks as they are written. -/
def arranged (ts : List Tweak) : List Tweak := (sectionNames ts).flatMap (inSection ts)

/-- In its section a setting has its tweaks in their order. -/
theorem filter_inSection (ts : List Tweak) (s k : String) :
    (inSection ts s).filter (isAbout s k) = ts.filter (isAbout s k) := by
  have hfilter : (ts.filter fun t => t.sectionName = s).filter (isAbout s k) =
      ts.filter (isAbout s k) := by
    rw [List.filter_filter]
    refine List.filter_congr fun t _ => ?_
    cases habout : isAbout s k t with
    | false => rfl
    | true => simpa using (isAbout_iff.mp habout).1
  rw [inSection, filter_mergeSort_on, hfilter]
  rw [List.pairwise_filter]
  refine List.pairwise_of_forall fun t u ht hu => ?_
  exact Std.le_of_eq ((isAbout_iff.mp ht).2.trans (isAbout_iff.mp hu).2.symm)

theorem filter_inSection_of_ne {s' : String} (h : s' ≠ s) :
    (inSection ts s').filter (isAbout s k) = [] := by
  rw [List.filter_eq_nil_iff]
  intro t ht habout
  exact h ((mem_inSection_iff.mp ht).2.symm.trans (isAbout_iff.mp habout).1)

theorem flatMap_eq_of_nodup {α β : Type} {f : α → List β} {a : α} {l : List α} (hn : l.Nodup)
    (ha : a ∈ l)
    (h : ∀ b, b ≠ a → f b = []) : l.flatMap f = f a := by
  induction l with
  | nil => exact absurd ha List.not_mem_nil
  | cons b l ih =>
    obtain ⟨hb, hl⟩ := List.nodup_cons.mp hn
    rw [List.flatMap_cons]
    obtain rfl | ha := List.mem_cons.mp ha
    · rw [List.flatMap_eq_nil_iff.mpr fun c hc => h c fun he => hb (he ▸ hc), List.append_nil]
    · rw [h b fun he => hb (he ▸ ha), List.nil_append, ih hl ha]

theorem filter_arranged (ts : List Tweak) (s k : String) :
    (arranged ts).filter (isAbout s k) = ts.filter (isAbout s k) := by
  rw [arranged, List.filter_flatMap]
  by_cases hs : s ∈ sectionNames ts
  · rw [flatMap_eq_of_nodup (nodup_sectionNames ts) hs fun s' hs' => filter_inSection_of_ne hs',
      filter_inSection]
  · have hnone : ts.filter (isAbout s k) = [] := by
      rw [List.filter_eq_nil_iff]
      exact fun t ht habout => hs (mem_sectionNames_iff.mpr ⟨t, ht, (isAbout_iff.mp habout).1⟩)
    rw [hnone, List.flatMap_eq_nil_iff]
    exact fun s' hs' => filter_inSection_of_ne fun he => hs (he ▸ hs')

theorem pairwise_arranged (ts : List Tweak) : (arranged ts).Pairwise Before := by
  rw [arranged, List.pairwise_flatMap]
  refine ⟨fun s _ => ?_, (pairwise_sectionNames ts).imp fun hlt t ht u hu => .inl ?_⟩
  · refine (pairwise_mergeSort_on setting _).imp_of_mem fun ht hu hle => .inr ⟨?_, hle⟩
    rw [(mem_inSection_iff.mp ht).2, (mem_inSection_iff.mp hu).2]
  · rwa [(mem_inSection_iff.mp ht).2, (mem_inSection_iff.mp hu).2]

/-- What is written section by section is the list, sorted as a whole. -/
theorem stableSort_arranged (ts : List Tweak) : StableSort ts (arranged ts) :=
  ⟨pairwise_arranged ts, filter_arranged ts⟩

/-! ### Headers and gaps -/

/-- What stands in a file with sections. -/
inductive Item
  | header (sectionName : String)
  | entry (t : Tweak)

namespace Item

def header? : Item → Option String
  | header s => some s
  | entry _ => none

def tweak? : Item → Option Tweak
  | header _ => none
  | entry t => some t

def text : Item → String
  | header s => "[" ++ s ++ "]"
  | entry t => line t

/-- The line ends before an item that is not the first: three before a header. -/
def gap : Item → String
  | header _ => "\n\n\n"
  | entry _ => "\n"

/-- An item and the gap before it as lines. -/
def lines : Item → List String
  | header s => ["\n", "[" ++ s ++ "]"]
  | entry t => [line t]

theorem join_lines (i : Item) : String.join (i.lines.map ("\n" ++ ·)) = i.gap ++ i.text := by
  cases i with
  | header s =>
    simp [lines, gap, text, String.join_cons, ← String.append_assoc]
  | entry t => simp [lines, gap, text, String.join_cons]

end Item

/-- The items of a row of tweaks behind a section: a header wherever the section changes. -/
def itemsAfter : Option String → List Tweak → List Item
  | _, [] => []
  | s, t :: ts =>
    if s = some t.sectionName then .entry t :: itemsAfter s ts
    else .header t.sectionName :: .entry t :: itemsAfter (some t.sectionName) ts

/-- The items of a row of tweaks. -/
def items (ts : List Tweak) : List Item := itemsAfter none ts

/-- The text of some items. -/
def text : List Item → String
  | [] => ""
  | i :: is => i.text ++ String.join (is.map fun j => j.gap ++ j.text)

/-! ### The items of the whole list -/

/-- Tweaks of one section stand under one header. -/
theorem itemsAfter_append_of_section {us : List Tweak} (h : ∀ t ∈ us, t.sectionName = s)
    (ws : List Tweak) :
    itemsAfter (some s) (us ++ ws) = us.map .entry ++ itemsAfter (some s) ws := by
  induction us with
  | nil => rfl
  | cons t us ih =>
    rw [List.forall_mem_cons] at h
    rw [List.cons_append, itemsAfter, if_pos (by rw [h.1]), ih h.2, List.map_cons, List.cons_append]

/-- Sections that are written one after the other have a header each. -/
theorem itemsAfter_flatMap_inSection {names : List String} {p : Option String} (hn : names.Nodup)
    (hp : ∀ s ∈ names, p ≠ some s) (hne : ∀ s ∈ names, inSection ts s ≠ []) :
    itemsAfter p (names.flatMap (inSection ts)) =
      names.flatMap fun s => .header s :: (inSection ts s).map .entry := by
  induction names generalizing p with
  | nil => rfl
  | cons s names ih =>
    obtain ⟨hs, hn⟩ := List.nodup_cons.mp hn
    rw [List.forall_mem_cons] at hp hne
    have hsection : ∀ t ∈ inSection ts s, t.sectionName = s := fun t ht =>
      (mem_inSection_iff.mp ht).2
    have hother : ∀ s' ∈ names, some s ≠ some s' := fun s' hs' he => hs (Option.some.inj he ▸ hs')
    have hrest := ih hn hother hne.2
    rw [List.flatMap_cons, List.flatMap_cons, ← hrest]
    obtain ⟨t, us, hus⟩ := List.exists_cons_of_ne_nil hne.1
    rw [hus, List.forall_mem_cons] at hsection
    rw [hus, List.cons_append, itemsAfter, hsection.1, if_neg hp.1,
      itemsAfter_append_of_section hsection.2]
    rfl

theorem items_arranged (ts : List Tweak) :
    items (arranged ts) =
      (sectionNames ts).flatMap fun s => .header s :: (inSection ts s).map .entry :=
  itemsAfter_flatMap_inSection (nodup_sectionNames ts) (fun _ _ => Option.some_ne_none _ |>.symm)
    fun _ hs => inSection_ne_nil hs

/-- Something behind each piece, and something before each piece. -/
theorem cons_flatMap_concat {α β : Type} (f : α → List β) (b : β) (l : List α) :
    b :: l.flatMap (fun a => f a ++ [b]) = l.flatMap (fun a => b :: f a) ++ [b] := by
  induction l with
  | nil => rfl
  | cons a l ih => simp [ih]

theorem dropLast_eq_tail {β : Type} {b : β} {l l' : List β} (h : b :: l = l' ++ [b]) :
    l.dropLast = l'.tail := by
  cases l' with
  | nil => simp_all
  | cons b' l' => simp_all

/-- The lines that are written are those of the items, without the gap before the first. -/
theorem lines_eq_tail (ts : List Tweak) :
    lines ts = ((items (arranged ts)).flatMap Item.lines).tail := by
  rw [lines, items_arranged, List.flatMap_assoc]
  refine (dropLast_eq_tail (cons_flatMap_concat
    (fun s => ("[" ++ s ++ "]") :: (inSection ts s).map line) "\n" (sectionNames ts))).trans ?_
  have hentries : ∀ us : List Tweak,
      (us.map Item.entry).flatMap Item.lines = us.map line := fun us => by
    rw [List.flatMap_map]
    exact List.flatMap_pure_eq_map line us
  simp [Item.lines, hentries]

theorem joinLines_cons (l : String) (ls : List String) :
    Text.joinLines (l :: ls) = l ++ String.join (ls.map ("\n" ++ ·)) := by
  induction ls generalizing l with
  | nil => simp [Text.joinLines]
  | cons m ls ih =>
    have ih := ih m
    rw [Text.joinLines] at ih ⊢
    rw [String.intercalate_cons_cons, ih, List.map_cons, String.join_cons]
    simp [String.append_assoc]

theorem join_map_flatMap_lines (is : List Item) :
    String.join ((is.flatMap Item.lines).map ("\n" ++ ·)) =
      String.join (is.map fun i => i.gap ++ i.text) := by
  induction is with
  | nil => rfl
  | cons i is ih =>
    rw [List.flatMap_cons, List.map_append, String.join_append, Item.join_lines, ih, List.map_cons,
      String.join_cons]

/-- A row of tweaks begins with a header. -/
theorem joinLines_tail_items (ws : List Tweak) :
    Text.joinLines ((items ws).flatMap Item.lines).tail = text (items ws) := by
  cases ws with
  | nil => rfl
  | cons t ws =>
    rw [items, itemsAfter, if_neg (Option.some_ne_none _).symm, text, ← join_map_flatMap_lines,
      ← joinLines_cons]
    rfl

/-! ### What the items say -/

theorem filterMap_tweak?_itemsAfter (p : Option String) (ws : List Tweak) :
    (itemsAfter p ws).filterMap Item.tweak? = ws := by
  induction ws generalizing p with
  | nil => rfl
  | cons t ws ih =>
    rw [itemsAfter]
    split
    next => exact congrArg (t :: ·) (ih p)
    next => exact congrArg (t :: ·) (ih (some t.sectionName))

/-- Every tweak stands under the header of its section. -/
theorem getLast?_header_of_itemsAfter {p : Option String} {pre post : List Item}
    (h : itemsAfter p ws = pre ++ .entry t :: post) :
    (pre.filterMap Item.header?).getLast?.or p = some t.sectionName := by
  induction ws generalizing p pre with
  | nil => simp [itemsAfter] at h
  | cons u ws ih =>
    rw [itemsAfter] at h
    split at h
    next hp =>
      cases pre with
      | nil =>
        cases h
        exact hp
      | cons i pre =>
        rw [List.cons_append, List.cons.injEq] at h
        obtain ⟨rfl, h⟩ := h
        simpa only [List.filterMap_cons, Item.header?] using ih h
    next =>
      -- the header of a section, its first tweak, and what follows
      match pre with
      | [] => cases h
      | [i] =>
        cases h
        rfl
      | i :: j :: pre =>
        rw [List.cons_append, List.cons_append, List.cons.injEq, List.cons.injEq] at h
        obtain ⟨rfl, rfl, h⟩ := h
        have hlast := ih h
        rw [Option.or_some] at hlast
        simpa only [List.filterMap_cons, Item.header?, List.getLast?_cons,
          Option.some_or] using hlast

theorem filterMap_header?_items_arranged (ts : List Tweak) :
    (items (arranged ts)).filterMap Item.header? = sectionNames ts := by
  have hentries : ∀ us : List Tweak, (us.map Item.entry).filterMap Item.header? = [] := fun us => by
    simp [Item.header?]
  rw [items_arranged, List.filterMap_flatMap]
  simp [Item.header?, hentries]

theorem render_arranged (ts : List Tweak) : render ts = text (items (arranged ts)) := by
  rw [render, lines_eq_tail, joinLines_tail_items]

/-- The text is that of the whole list, sorted once by section and setting with the tweaks of a
setting in their order, and with a header wherever the section changes.  In it every tweak is
written once, under its own section, and every section has one header.  So the text is the same for
every order of the list that keeps the order of the tweaks of each setting. -/
theorem render_eq_text_items (ts : List Tweak) :
    (∃ ws, StableSort ts ws) ∧
    (∀ ws, StableSort ts ws →
      render ts = text (items ws) ∧
      (items ws).filterMap Item.tweak? = ws ∧ ws.Perm ts ∧
      (∀ pre t post, items ws = pre ++ .entry t :: post →
        (pre.filterMap Item.header?).getLast? = some t.sectionName) ∧
      ((items ws).filterMap Item.header?).Nodup ∧
      (∀ s, s ∈ (items ws).filterMap Item.header? ↔ ∃ t ∈ ts, t.sectionName = s)) ∧
    (∀ ts', Rearranged ts ts' → render ts' = render ts) := by
  refine ⟨⟨_, stableSort_arranged ts⟩, fun ws h => ?_, fun ts' h => ?_⟩
  · obtain rfl := (stableSort_arranged ts).eq h
    refine ⟨render_arranged ts, filterMap_tweak?_itemsAfter none _, h.stable.perm,
      fun pre t post hi => ?_, ?_⟩
    · simpa using getLast?_header_of_itemsAfter hi
    · rw [filterMap_header?_items_arranged]
      exact ⟨nodup_sectionNames ts, fun s => mem_sectionNames_iff⟩
  · have harranged := stableSort_arranged ts'
    rw [render_arranged, render_arranged,
      (stableSort_arranged ts).eq ⟨harranged.sorted, h.trans harranged.stable⟩]

namespace Sample

/-- Two sections, one of them with two tweaks of one setting. -/
def mixed : List Tweak :=
  [.edit ⟨"B", "y", .int 9, none⟩, .disable "A" "z", .edit ⟨"B", "x", .int 2, some "c"⟩,
    .edit ⟨"B", "y", .int 10, none⟩, .edit ⟨"A", "a", .bool true, some ""⟩]

def sorted : List Tweak :=
  [.edit ⟨"A", "a", .bool true, some ""⟩, .disable "A" "z", .edit ⟨"B", "x", .int 2, some "c"⟩,
    .edit ⟨"B", "y", .int 9, none⟩, .edit ⟨"B", "y", .int 10, none⟩]

end Sample

open Sample in
/-- The sorted list itself is an order of the list that gives the same text. -/
theorem render_mixed :
    StableSort mixed sorted ∧ Rearranged mixed sorted ∧ render sorted = render mixed ∧
      render mixed = "[A]\na = True\n# z - disabled\n\n\n[B]\nx = 2 # c\ny = 9\ny = 10" := by
  have hsort : StableSort mixed sorted := by decide +kernel
  have htext : text (items sorted) =
      "[A]\na = True\n# z - disabled\n\n\n[B]\nx = 2 # c\ny = 9\ny = 10" := by decide +kernel
  obtain ⟨-, hrow, horder⟩ := render_eq_text_items mixed
  exact ⟨hsort, hsort.stable, horder sorted hsort.stable, (hrow sorted hsort).1.trans htext⟩

end Standard

end ModWizard.Tweak
