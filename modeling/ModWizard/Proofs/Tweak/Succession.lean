import ModWizard.Proofs.Tweak.Index
import ModWizard.Proofs.Tweak.Layout
import ModWizard.Tweak.File

/-!
# Repeated tweaks in a new file

If a setting is tweaked more than once, the last tweak should be the last line about it.  A file
with sections keeps the order of such tweaks, for it sorts them by their settings alone.  A file of
commands sorts its lines as texts, so the values and comments decide: the order is kept exactly if
they come in order already (`inOrder_iff`), and the last line is that of the last edit exactly if no
other edit of the setting has a greater one (`endsWithLast_iff`).
-/

namespace ModWizard.Tweak

variable {ts ws : List Tweak} {s k : String} {e e' : Edit}

/-! ### The last of a sorted row -/

section Sorting

variable {α : Type} {f : α → String} {l : List α} {p q : α → Bool} {a z : α}

theorem le_of_getLast? (h : l.Pairwise fun a b => f a ≤ f b) (hz : l.getLast? = some z)
    (ha : a ∈ l) :
    f a ≤ f z := by
  obtain ⟨l, rfl⟩ := List.getLast?_eq_some_iff.mp hz
  obtain ha | ha := List.mem_append.mp ha
  · exact (List.pairwise_append.mp h).2.2 a ha z List.mem_cons_self
  · exact Std.le_of_eq (congrArg f (List.mem_singleton.mp ha))

theorem getLast?_filter_of_getLast? (hq : ∀ a, q a = true → p a = true)
    (hz : (l.filter p).getLast? = some z) (h : q z = true) : (l.filter q).getLast? = some z := by
  have hfilter : l.filter q = (l.filter p).filter q := by
    rw [List.filter_filter]
    refine List.filter_congr fun a _ => ?_
    cases ha : q a with
    | false => rfl
    | true => rw [hq a ha, Bool.and_self]
  obtain ⟨l', hl'⟩ := List.getLast?_eq_some_iff.mp hz
  rw [hfilter, hl', List.filter_append, List.filter_cons_of_pos h]
  exact List.getLast?_concat

/-- If the last of some is a greatest of them, a sort keeps it the last. -/
theorem getLast?_filter_mergeSort_on (hz : (l.filter p).getLast? = some z)
    (hmax : ∀ a ∈ l.filter p, f a ≤ f z) :
    ((l.mergeSort fun a b => f a ≤ f b).filter p).getLast? = some z := by
  have hperm := (List.mergeSort_perm l fun a b => decide (f a ≤ f b)).filter p
  have hmem := hperm.mem_iff.mpr (List.mem_of_getLast? hz)
  obtain ⟨y, hy⟩ : ∃ y, ((l.mergeSort fun a b => f a ≤ f b).filter p).getLast? = some y :=
    Option.ne_none_iff_exists'.mp fun hnone =>
      List.ne_nil_of_mem hmem (List.getLast?_eq_none_iff.mp hnone)
  have hfy : f y = f z := String.le_antisymm (hmax y (hperm.mem_iff.mp (List.mem_of_getLast? hy)))
    (le_of_getLast? ((pairwise_mergeSort_on f l).sublist List.filter_sublist) hy hmem)
  -- those that are as great as the last keep their order
  have hq : ∀ a, (p a && decide (f a = f z)) = true → p a = true := fun a ha =>
    (Bool.and_eq_true_iff.mp ha).1
  have hkept : (l.mergeSort fun a b => f a ≤ f b).filter (fun a => p a && decide (f a = f z)) =
      l.filter fun a => p a && decide (f a = f z) := by
    refine filter_mergeSort_on
      (List.pairwise_filter.mpr (List.pairwise_of_forall fun a b ha hb => ?_))
    simp only [Bool.and_eq_true, decide_eq_true_eq] at ha hb
    exact Std.le_of_eq (ha.2.trans hb.2.symm)
  have hpy := (List.mem_filter.mp (List.mem_of_getLast? hy)).2
  have hpz := (List.mem_filter.mp hmem).2
  have hlast := getLast?_filter_of_getLast? hq hy (by simp [hpy, hfy])
  rw [hkept, getLast?_filter_of_getLast? hq hz (by simp [hpz])] at hlast
  rw [hy, hlast]

end Sorting

namespace Command

/-- What a line says behind the word `to`. -/
def said (e : Edit) : String :=
  e.value.toText ++
    match e.remark with
    | some c => " ; " ++ c
    | none => ""

theorem line_eq (e : Edit) : line e = e.sectionName ++ " " ++ e.setting ++ " to " ++ said e :=
  String.append_assoc

theorem append_lt_append {p a b : String} (h : a < b) : p ++ a < p ++ b := by
  rw [String.lt_iff, String.toList_append, String.toList_append]
  exact List.append_left_lt (String.lt_iff.mp h)

theorem append_le_append_iff {p a b : String} : p ++ a ≤ p ++ b ↔ a ≤ b := by
  refine ⟨fun h => String.not_lt.mp fun hlt => String.not_lt.mpr h (append_lt_append hlt),
    fun h => ?_⟩
  by_cases heq : a = b
  · exact Std.le_of_eq (congrArg (p ++ ·) heq)
  · exact Std.le_of_lt (append_lt_append (Std.lt_of_le_of_ne h heq))

/-- The lines of edits of one setting are ordered by what they say. -/
theorem line_le_line_iff (hs : e.sectionName = e'.sectionName) (hk : e.setting = e'.setting) :
    line e ≤ line e' ↔ said e ≤ said e' := by
  rw [line_eq, line_eq, hs, hk, append_le_append_iff]

/-- The edits in the order of their lines. -/
def arranged (ts : List Tweak) : List Edit :=
  (ts.filterMap edit?).mergeSort fun e e' => line e ≤ line e'

theorem map_line_arranged (ts : List Tweak) : (arranged ts).map line = editLines ts :=
  List.map_mergeSort fun _ _ _ _ => rfl

/-- Edits whose lines are those of the file are in the order of their lines. -/
theorem pairwise_of_editLines_eq {es : List Edit} (h : editLines ts = es.map line) :
    es.Pairwise fun e e' => line e ≤ line e' := by
  have hle : (editLines ts).Pairwise (· ≤ ·) := pairwise_mergeSort_on id _
  rwa [h, List.pairwise_map] at hle

end Command

/-! ### Which line is written for which tweak -/

/-- The lines of a new file. -/
def newLines (ts : List Tweak) : List String :=
  if areCommands ts then Command.header :: Command.editLines ts else Standard.lines ts

theorem render_eq_joinLines (ts : List Tweak) : render ts = Text.joinLines (newLines ts) := by
  rw [render, newLines]
  split <;> rfl

/-- That a row of tweaks is what the lines of a new file are written for, one by one. -/
inductive Lists (ts : List Tweak) : List Tweak → Prop
  | command {es : List Edit} (h : areCommands ts = true) (hperm : es.Perm (ts.filterMap edit?))
    (hlines : newLines ts = Command.header :: es.map Command.line) : Lists ts (es.map .edit)
  | standard {ws : List Tweak} (h : areCommands ts = false) (hperm : ws.Perm ts)
    (hlines : newLines ts = ((Standard.items ws).flatMap Standard.Item.lines).tail) : Lists ts ws

/-- The tweaks for which a new file has a line: in a file of commands the edits only. -/
def shown (ts : List Tweak) : List Tweak :=
  if areCommands ts then (ts.filterMap edit?).map .edit else ts

/-- That the lines about each setting stand in the order of its tweaks. -/
def InOrder (ts : List Tweak) : Prop := ∃ ws, Lists ts ws ∧ Rearranged (shown ts) ws

/-- That the last line about a setting is that of its last tweak. -/
def EndsWithLast (ts : List Tweak) (s k : String) : Prop :=
  ∃ ws, Lists ts ws ∧
    (ws.filter (isAbout s k)).getLast? = ((shown ts).filter (isAbout s k)).getLast?

theorem InOrder.endsWithLast (h : InOrder ts) (s k : String) : EndsWithLast ts s k := by
  obtain ⟨ws, hlists, hrearranged⟩ := h
  exact ⟨ws, hlists, by rw [hrearranged s k]⟩

/-- A file with sections keeps the order of the tweaks of each setting. -/
theorem inOrder_of_standard (h : areCommands ts = false) : InOrder ts := by
  have hsort := Standard.stableSort_arranged ts
  have hlines : newLines ts = Standard.lines ts := if_neg (by simp [h])
  refine ⟨Standard.arranged ts,
    .standard h hsort.stable.perm (hlines.trans (Standard.lines_eq_tail ts)), ?_⟩
  rw [shown, h]
  exact hsort.stable

/-- The edits of a setting. -/
def editsAbout (s k : String) (es : List Edit) : List Edit :=
  es.filter fun e => isAbout s k (.edit e)

theorem filter_isAbout_map_edit (s k : String) (es : List Edit) :
    (es.map Tweak.edit).filter (isAbout s k) = (editsAbout s k es).map .edit :=
  List.filter_map

theorem map_edit_inj {es es' : List Edit} : es.map Tweak.edit = es'.map Tweak.edit ↔ es = es' :=
  List.map_inj_right fun _ _ => Tweak.edit.inj

theorem map_edit?_inj {e? e'? : Option Edit} : e?.map Tweak.edit = e'?.map Tweak.edit ↔ e? = e'? :=
  (Option.map_injective fun _ _ => Tweak.edit.inj).eq_iff

theorem getLast?_filter_map_edit (s k : String) (es : List Edit) :
    ((es.map Tweak.edit).filter (isAbout s k)).getLast? =
      (editsAbout s k es).getLast?.map .edit := by
  rw [filter_isAbout_map_edit, List.getLast?_map]

theorem shown_of_areCommands (h : areCommands ts = true) :
    shown ts = (ts.filterMap edit?).map .edit :=
  if_pos h

theorem newLines_of_areCommands (h : areCommands ts = true) :
    newLines ts = Command.header :: Command.editLines ts :=
  if_pos h

theorem lists_iff_of_areCommands (h : areCommands ts = true) :
    Lists ts ws ↔ ∃ es : List Edit, ws = es.map .edit ∧ es.Perm (ts.filterMap edit?) ∧
      Command.editLines ts = es.map Command.line := by
  constructor
  · rintro (@⟨es, -, hperm, hlines⟩ | ⟨hs, -, -⟩)
    · rw [newLines_of_areCommands h] at hlines
      exact ⟨es, rfl, hperm, (List.cons.inj hlines).2⟩
    · exact absurd (h.symm.trans hs) (by decide)
  · rintro ⟨es, rfl, hperm, hlines⟩
    exact .command h hperm (by rw [newLines_of_areCommands h, hlines])

theorem Command.lists_arranged (h : areCommands ts = true) : Lists ts ((arranged ts).map .edit) :=
  (lists_iff_of_areCommands h).mpr
    ⟨arranged ts, rfl, List.mergeSort_perm _ _, (map_line_arranged ts).symm⟩

theorem perm_editsAbout_arranged (ts : List Tweak) (s k : String) :
    (editsAbout s k (Command.arranged ts)).Perm (editsAbout s k (ts.filterMap edit?)) :=
  (List.mergeSort_perm _ _).filter _

theorem pairwise_editsAbout_iff {R : Edit → Edit → Prop} {es : List Edit} :
    (∀ s k, (editsAbout s k es).Pairwise R) ↔
      es.Pairwise fun e e' => e.sectionName = e'.sectionName → e.setting = e'.setting → R e e' := by
  simp only [editsAbout, List.pairwise_filter, isAbout_iff, sectionName_edit, setting_edit]
  constructor
  · intro h
    rw [List.pairwise_iff_forall_sublist]
    intro e e' hsub hs hk
    exact List.pairwise_iff_forall_sublist.mp (h e'.sectionName e'.setting) hsub ⟨hs, hk⟩ ⟨rfl, rfl⟩
  · intro h s k
    exact h.imp fun hR he he' => hR (he.1.trans he'.1.symm) (he.2.trans he'.2.symm)

/-- The order is kept in a file with sections, and in one of commands if what the edits of each
setting say is in order. -/
theorem inOrder_iff :
    InOrder ts ↔ (areCommands ts = true → (ts.filterMap edit?).Pairwise fun e e' =>
      e.sectionName = e'.sectionName → e.setting = e'.setting →
        Command.said e ≤ Command.said e') := by
  have hline : (fun e e' : Edit => e.sectionName = e'.sectionName → e.setting = e'.setting →
      Command.said e ≤ Command.said e') = fun e e' => e.sectionName = e'.sectionName →
        e.setting = e'.setting → Command.line e ≤ Command.line e' := by
    funext e e'
    exact propext (forall₂_congr fun hs hk => (Command.line_le_line_iff hs hk).symm)
  rw [hline, ← pairwise_editsAbout_iff]
  cases h : areCommands ts with
  | false => exact iff_of_true (inOrder_of_standard h) fun h => absurd h (by decide)
  | true =>
    rw [InOrder, shown_of_areCommands h]
    refine ⟨?_, fun hsorted => ?_⟩
    · rintro ⟨ws, hlists, hrearranged⟩ - s k
      obtain ⟨es, rfl, -, hlines⟩ := (lists_iff_of_areCommands h).mp hlists
      have habout := hrearranged s k
      rw [filter_isAbout_map_edit, filter_isAbout_map_edit, map_edit_inj] at habout
      rw [← habout]
      exact (Command.pairwise_of_editLines_eq hlines).sublist List.filter_sublist
    · refine ⟨(Command.arranged ts).map .edit, Command.lists_arranged h, fun s k => ?_⟩
      rw [filter_isAbout_map_edit, filter_isAbout_map_edit, map_edit_inj]
      exact filter_mergeSort_on (hsorted rfl s k)

theorem said_le_said_iff {es : List Edit} (he : e ∈ editsAbout s k es)
    (he' : e' ∈ editsAbout s k es) :
    Command.said e ≤ Command.said e' ↔ Command.line e ≤ Command.line e' := by
  obtain ⟨hs, hk⟩ := isAbout_iff.mp (List.mem_filter.mp he).2
  obtain ⟨hs', hk'⟩ := isAbout_iff.mp (List.mem_filter.mp he').2
  exact (Command.line_le_line_iff (hs.trans hs'.symm) (hk.trans hk'.symm)).symm

/-- The last line about a setting is that of its last tweak in a file with sections, and in one of
commands if no other edit of the setting says something greater. -/
theorem endsWithLast_iff :
    EndsWithLast ts s k ↔
      (areCommands ts = true → ∀ z ∈ (editsAbout s k (ts.filterMap edit?)).getLast?,
      ∀ e ∈ editsAbout s k (ts.filterMap edit?), Command.said e ≤ Command.said z) := by
  cases h : areCommands ts with
  | false =>
    exact iff_of_true ((inOrder_of_standard h).endsWithLast s k) fun h => absurd h (by decide)
  | true =>
    rw [EndsWithLast, shown_of_areCommands h]
    refine ⟨?_, fun hmax => ?_⟩
    · rintro ⟨ws, hlists, hlast⟩ - z hz e he
      obtain ⟨es, rfl, hperm, hlines⟩ := (lists_iff_of_areCommands h).mp hlists
      rw [getLast?_filter_map_edit, getLast?_filter_map_edit, map_edit?_inj,
        Option.mem_def.mp hz] at hlast
      rw [said_le_said_iff he (List.mem_of_getLast? hz)]
      exact le_of_getLast?
        ((Command.pairwise_of_editLines_eq hlines).sublist List.filter_sublist) hlast
        ((hperm.filter _).mem_iff.mpr he)
    · refine ⟨(Command.arranged ts).map .edit, Command.lists_arranged h, ?_⟩
      rw [getLast?_filter_map_edit, getLast?_filter_map_edit, map_edit?_inj]
      cases hz : (editsAbout s k (ts.filterMap edit?)).getLast? with
      | none =>
        rw [List.getLast?_eq_none_iff] at hz ⊢
        exact (hz ▸ perm_editsAbout_arranged ts s k).eq_nil
      | some z =>
        refine getLast?_filter_mergeSort_on hz fun e he => ?_
        exact (said_le_said_iff he (List.mem_of_getLast? hz)).mp (hmax rfl z hz e he)

/-- The edit that a merge writes for a setting is the last of those that name the section as it
does. -/
theorem getLast?_editsAbout_of_find? (h : areCommands ts = true) {w : Keyword}
    (he : (Merge.edits ts).find? w.key k = some e) :
    (editsAbout e.sectionName k (ts.filterMap edit?)).getLast? = some e := by
  have hkeywords := Merge.ofKeywords_editEntries (List.all_eq_true.mp h)
  rw [Merge.edits_eq_gather, Merge.find?_gather hkeywords] at he
  split at he
  next =>
    have hfind : (ts.filterMap edit?).reverse.find? (fun e => (Merge.entry e).isAbout w k) =
        some e := by
      have hitem : Merge.Entry.item ∘ Merge.entry = id := rfl
      rwa [Merge.last?, Merge.editEntries, ← List.map_reverse, List.find?_map, Option.map_map,
        hitem,
        Option.map_id] at he
    have hlast : ((ts.filterMap edit?).filter fun e => (Merge.entry e).isAbout w k).getLast? =
        some e := by
      rw [List.getLast?_eq_head?_reverse, ← List.filter_reverse, List.head?_filter, hfind]
    have habout := List.find?_some hfind
    simp only [Merge.Entry.isAbout, Merge.Entry.isIn, Merge.entry, Bool.and_eq_true,
      beq_iff_eq] at habout
    refine getLast?_filter_of_getLast? (fun a ha => ?_) hlast (isAbout_iff.mpr ⟨rfl, habout.2⟩)
    obtain ⟨hs, hk⟩ := isAbout_iff.mp ha
    simp only [Merge.Entry.isAbout, Merge.Entry.isIn, Merge.entry, Bool.and_eq_true, beq_iff_eq]
    exact ⟨(congrArg Text.lower hs).trans habout.1, hk⟩
  next => cases he

/-- The lines of a new file are written for the tweaks, one for each that is shown.  Those about
each setting stand in the order of its tweaks in a file with sections, and in one of commands
exactly if what the edits of a setting say is in order; the last of them is that of the last tweak
exactly if none says something greater than the last, which is the edit that a merge would write. -/
theorem repeated_in_order_iff (ts : List Tweak) :
    (render ts = Text.joinLines (newLines ts) ∧ ∃ ws, Lists ts ws ∧ ws.Perm (shown ts)) ∧
    (InOrder ts ↔ (areCommands ts = true → (ts.filterMap edit?).Pairwise fun e e' =>
      e.sectionName = e'.sectionName → e.setting = e'.setting → Command.said e ≤ Command.said e')) ∧
    (∀ s k, EndsWithLast ts s k ↔ (areCommands ts = true →
      ∀ z ∈ (editsAbout s k (ts.filterMap edit?)).getLast?,
        ∀ e ∈ editsAbout s k (ts.filterMap edit?), Command.said e ≤ Command.said z)) ∧
    (areCommands ts = true → ∀ (w : Keyword) k e, (Merge.edits ts).find? w.key k = some e →
      (editsAbout e.sectionName k (ts.filterMap edit?)).getLast? = some e) := by
  refine ⟨⟨render_eq_joinLines ts, ?_⟩, inOrder_iff, fun s k => endsWithLast_iff,
    fun h w k e => getLast?_editsAbout_of_find? h⟩
  cases h : areCommands ts with
  | false =>
    obtain ⟨ws, hlists, hrearranged⟩ := inOrder_of_standard h
    exact ⟨ws, hlists, hrearranged.perm⟩
  | true =>
    refine ⟨_, Command.lists_arranged h, ?_⟩
    rw [shown_of_areCommands h]
    exact (List.mergeSort_perm _ _).map _

namespace Repeated

/-- Two values of one setting in the order of their texts, and a setting between them. -/
def rising : List Tweak :=
  [.edit ⟨"set", "a", .int 10, none⟩, .edit ⟨"setGS", "b", .int 7, none⟩,
    .edit ⟨"set", "a", .int 9, some "last"⟩]

/-- The values as numbers are counted. -/
def falling : List Tweak := [.edit ⟨"set", "a", .int 9, none⟩, .edit ⟨"set", "a", .int 10, none⟩]

end Repeated

open Repeated in
/-- The last edit is the last line, and a merge would write it. -/
theorem repeated_in_order_rising :
    areCommands rising = true ∧ InOrder rising ∧ EndsWithLast rising "set" "a" ∧
      (Merge.edits rising).find? "set" "a" = some ⟨"set", "a", .int 9, some "last"⟩ ∧
      (editsAbout "set" "a" (rising.filterMap edit?)).getLast? =
        some ⟨"set", "a", .int 9, some "last"⟩ := by
  obtain ⟨-, horder, -, hmerge⟩ := repeated_in_order_iff rising
  have hc : areCommands rising = true := by decide +kernel
  have hfind : (Merge.edits rising).find? "set" "a" = some ⟨"set", "a", .int 9, some "last"⟩ := by
    decide +kernel
  have hin : InOrder rising := by
    have hle : Command.said ⟨"set", "a", .int 10, none⟩ ≤
        Command.said ⟨"set", "a", .int 9, some "last"⟩ := by
      decide +kernel
    exact horder.mpr fun _ => by simp [rising, edit?, hle]
  exact ⟨hc, hin, hin.endsWithLast "set" "a", hfind, hmerge hc .set "a" _ hfind⟩

open Repeated in
/-- The value 10 comes before the value 9, so the first edit is the last line. -/
theorem repeated_not_in_order :
    render falling = "; Generated by Mod Organizer 2 via Wizard\nset a to 10\nset a to 9" ∧
      ¬ EndsWithLast falling "set" "a" ∧ ¬ InOrder falling := by
  have hc : areCommands falling = true := by decide +kernel
  have hlt : ¬ Command.said ⟨"set", "a", .int 9, none⟩ ≤
      Command.said ⟨"set", "a", .int 10, none⟩ := by
    decide +kernel
  have hlines : Command.editLines falling = ["set a to 10", "set a to 9"] := by
    have hmap : (falling.filterMap edit?).map Command.line = ["set a to 9", "set a to 10"] := by
      decide +kernel
    have hle : ¬ "set a to 9" ≤ "set a to 10" := by decide
    rw [Command.editLines, hmap]
    simp [List.mergeSort, hle]
  have hend : ¬ EndsWithLast falling "set" "a" := fun h =>
    hlt (endsWithLast_iff.mp h hc _ rfl _ List.mem_cons_self)
  refine ⟨?_, hend, fun h => hend (h.endsWithLast "set" "a")⟩
  rw [render, if_pos hc, Command.render, hlines]
  decide +kernel

end ModWizard.Tweak
