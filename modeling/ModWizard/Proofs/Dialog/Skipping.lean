import ModWizard.Proofs.Dialog.Requirement

/-!
# Requirements that are met

No page is made for a requirement that is met, and none that is not met is passed over: the dialog
always shows the first node of the chain that has to be shown.  But to pass over a requirement a run
goes one level deeper, and there is room for some levels only.  However much there is, a longer row
of requirements makes the run fail, though all of them are met (`runWithin_row`).
-/

namespace ModWizard.Dialog

open Script (Source Stop Node)

/-- That a run from a node, with room to pass over some requirements, comes to the first node of the
chain that has to be shown if and only if the requirements before it can be compared and are not too
many.  If they can be compared they are met, and if there are too many, the run fails. -/
def StopsAtFirst (s : Script) (org : Organizer) (room : Nat) (id : Option String)
    (result : Except Script.Fault Stop) : Prop :=
  ∀ pre node stop, s.Chain id (pre ++ [node]) → node.Halts org → node.stop? = some stop →
    (∀ n ∈ pre, ¬ n.Halts org) →
    (result = .ok stop ↔
      (∀ n ∈ pre, ∀ r, n.requirement? = some r → r.isMet? org ≠ none) ∧
        Script.demands pre ≤ room) ∧
    ((∀ n ∈ pre, ∀ r, n.requirement? = some r → r.isMet? org ≠ none) →
      (∀ n ∈ pre, ∀ r, n.requirement? = some r → r.isMet? org = some true) ∧
      (room < Script.demands pre → result = .error .tooDeep))

theorem stopsAtFirst_runWithin (s : Script) (org : Organizer) (room : Nat) (id : Option String) :
    StopsAtFirst s org room id (s.runWithin (Requirement.isMet? org) (room + 1) id) := by
  intro pre node stop hchain hn hs hpre
  refine ⟨?_, fun hread => ?_⟩
  · rw [hchain.runWithin_eq_ok_iff hn hs hpre, Nat.lt_succ_iff]
  · have hpasses : ∀ n ∈ pre, n.Passes org := fun n hmem =>
      (Node.passes_iff_of_not_halts (hpre n hmem)).mpr (hread n hmem)
    refine ⟨fun n hmem r hr => (hpasses n hmem).isMet? hr, fun hlt => ?_⟩
    rw [hchain.runWithin_eq hpasses hn hs, if_neg (by omega)]

namespace Lengthy

def label (i : Nat) : String := String.ofList (Nat.toDigits 10 i)

theorem label_injective : Function.Injective label := fun i j h => by
  have hdigits : Nat.toDigits 10 i = Nat.toDigits 10 j := String.ofList_inj.mp h
  rw [← Nat.ofDigitChars_ten_toDigits (n := i), hdigits, Nat.ofDigitChars_ten_toDigits]

/-- A node that asks for a mod manager, which is there, and leads to the next. -/
def link (i : Nat) : Node := ⟨label i, .requirement ⟨"", "", "", "1"⟩ (some (label (i + 1)))⟩

def ending (n : Nat) : Node := ⟨label n, .done ⟨[], [], [], ∅, ∅⟩ none⟩

/-- A row of requirements and an end. -/
def row (n : Nat) : Script where
  start := label 0
  nodes := .ofList ((List.range n).map (fun i => (label i, link i)) ++ [(label n, ending n)])

theorem entries_row (n : Nat) :
    (row n).nodes.entries =
      (List.range n).map (fun i => (label i, link i)) ++ [(label n, ending n)] := by
  refine Table.entries_ofList ?_
  have hkeys :
      ((List.range n).map (fun i => (label i, link i)) ++ [(label n, ending n)]).map Prod.fst =
        (List.range (n + 1)).map label := by
    simp [List.range_succ, Function.comp_def]
  rw [hkeys]
  exact List.nodup_range.map label_injective

theorem node?_row_of_mem {n i : Nat} {node : Node} (h : (label i, node) ∈ (row n).nodes.entries) :
    (row n).node? (some (label i)) = some node :=
  Table.get?_eq_some_iff.mpr h

/-- The chain of the row is the row. -/
theorem chain_row {n i m : Nat} (h : i + m = n) :
    (row n).Chain (some (label i)) ((List.range' i m).map link ++ [ending n]) := by
  induction m generalizing i with
  | zero =>
    obtain rfl : i = n := h
    exact ⟨node?_row_of_mem (by simp [entries_row]), trivial⟩
  | succ m ih =>
    refine ⟨node?_row_of_mem ?_, ih (by omega)⟩
    rw [entries_row]
    exact List.mem_append_left _ (List.mem_map.mpr ⟨i, List.mem_range.mpr (by omega), rfl⟩)

/-- Whatever the organizer, the requirements of the row are met. -/
theorem passes_links (org : Organizer) (i m : Nat) :
    ∀ node ∈ (List.range' i m).map link, node.Passes org :=
  List.forall_mem_map.mpr fun _ _ => .inr ⟨_, rfl, rfl⟩

theorem halts_ending (org : Organizer) (n : Nat) : (ending n).Halts org :=
  ⟨Option.some_ne_none _, fun _ h => by cases h⟩

theorem demands_row (i m : Nat) : Script.demands ((List.range' i m).map link) = m := by
  have hall : ∀ node ∈ (List.range' i m).map link, node.requirement?.isSome = true :=
    List.forall_mem_map.mpr fun _ _ => rfl
  rw [Script.demands, List.countP_eq_length.mpr hall, List.length_map, List.length_range']

/-- A row of met requirements is passed over if it is not too long. -/
theorem runWithin_row (org : Organizer) (room n : Nat) :
    (row n).runWithin (Requirement.isMet? org) (room + 1) (some (label 0)) =
      if n ≤ room then .ok (.done (label n) ⟨[], [], [], ∅, ∅⟩ none) else .error .tooDeep := by
  have hchain := chain_row (Nat.zero_add n)
  rw [hchain.runWithin_eq (passes_links org 0 n) (halts_ending org n) rfl, demands_row]
  simp only [Nat.lt_succ_iff]
  rfl

theorem runWithin_row_succ (org : Organizer) (room : Nat) :
    (row (room + 1)).runWithin (Requirement.isMet? org) (room + 1) (some (label 0)) =
      .error .tooDeep := by
  rw [runWithin_row, if_neg (Nat.not_succ_le_self room)]

end Lengthy

open Lengthy in
/-- However much room there is to pass over requirements, there is a script with one more of them,
all met, and the end behind them is not reached. -/
theorem exists_tooDeep (org : Organizer) (room : Nat) :
    ∃ s : Script, ∃ pre node,
      s.Chain (some s.start) (pre ++ [node]) ∧ (∀ n ∈ pre, n.Passes org) ∧
      Script.demands pre = room + 1 ∧ node.Halts org ∧
      s.runWithin (Requirement.isMet? org) (room + 1) (some s.start) = .error .tooDeep :=
  ⟨row (room + 1), (List.range' 0 (room + 1)).map link, ending (room + 1),
    chain_row (Nat.zero_add _), passes_links org 0 _, demands_row 0 _, halts_ending org _,
    runWithin_row_succ org room⟩

/-- However much room there is to pass over requirements, a run stops at the first node of the chain
that has to be shown, having passed over met requirements only, if and only if those before it can
be compared and there is room for them.  So it is when the dialog is opened and when it goes on,
each with the room that it has.  Whatever the dialog is brought to has met requirements only before
it, and no page is made for a requirement that is met.  But there is no room that is enough for all
scripts. -/
theorem skipped_met_iff (setup : Setup) :
    (∀ room id, StopsAtFirst setup.script setup.organizer room id
      (setup.script.runWithin (Requirement.isMet? setup.organizer) (room + 1) id)) ∧
    (∀ source : Source, StopsAtFirst setup.script setup.organizer
      (source.room setup.organizer.host) (source.node setup.script)
      (setup.script.run setup.organizer source)) ∧
    (∀ stop d x, Brings setup stop d x →
      ∃ source : Source, ∃ pre node,
        setup.script.Chain (source.node setup.script) (pre ++ [node]) ∧
        node.Halts setup.organizer ∧ node.stop? = some stop ∧
        ∀ n ∈ pre, n.Passes setup.organizer) ∧
    (∀ d, Reachable setup d → ∀ p, Page.requirement p ∈ d.stack.pages →
      p.needed.isMet? setup.organizer = some false) ∧
    (∀ room, ∃ s : Script, ∃ pre node,
      s.Chain (some s.start) (pre ++ [node]) ∧ (∀ n ∈ pre, n.Passes setup.organizer) ∧
      Script.demands pre = room + 1 ∧ node.Halts setup.organizer ∧
      s.runWithin (Requirement.isMet? setup.organizer) (room + 1) (some s.start) =
        .error .tooDeep) := by
  refine ⟨stopsAtFirst_runWithin _ _, fun source => stopsAtFirst_runWithin _ _ _ _,
    fun stop d x h => ?_, fun d hd p hp => (hd.requirement hp).1, exists_tooDeep setup.organizer⟩
  obtain ⟨source, hrun⟩ := h.exists_run
  obtain ⟨pre, node, hchain, hn, hs, hpre, -⟩ := Script.runWithin_eq_ok_iff.mp hrun
  exact ⟨source, pre, node, hchain, hn, hs, hpre⟩

namespace Lengthy

/-- A step, a requirement that is met, and one that is not. -/
def mixed : Script where
  start := "a"
  nodes := .ofList
    [("a", ⟨"a", .step (some "b")⟩),
     ("b", ⟨"b", .requirement ⟨"1.0", "", "", "9"⟩ (some "c")⟩),
     ("c", ⟨"c", .requirement ⟨"1.0", "2.0", "", ""⟩ (some "e")⟩),
     ("e", ⟨"e", .done ⟨[], [], [], ∅, ∅⟩ none⟩)]

/-- An organizer without an extender, whose host has room for one requirement. -/
def organizer : Organizer := ⟨.plain 1, "Game", "1.0", "1.0", none, none, [], [], ∅, ∅⟩

end Lengthy

open Lengthy in
/-- The second requirement is shown, and the first is not. -/
theorem skipped_met_mixed :
    mixed.Chain (some "a") ([⟨"a", .step (some "b")⟩,
        ⟨"b", .requirement ⟨"1.0", "", "", "9"⟩ (some "c")⟩] ++
        [⟨"c", .requirement ⟨"1.0", "2.0", "", ""⟩ (some "e")⟩]) ∧
      Requirement.isMet? organizer ⟨"1.0", "", "", "9"⟩ = some true ∧
      mixed.run organizer .opening =
        .ok (.requirement "c" ⟨"1.0", "2.0", "", ""⟩ (some "e")) := by
  have hchain : mixed.Chain (some "a") ([⟨"a", .step (some "b")⟩,
      ⟨"b", .requirement ⟨"1.0", "", "", "9"⟩ (some "c")⟩] ++
      [⟨"c", .requirement ⟨"1.0", "2.0", "", ""⟩ (some "e")⟩]) :=
    ⟨by decide +kernel, by decide +kernel, by decide +kernel, trivial⟩
  have hmet : Requirement.isMet? organizer ⟨"1.0", "", "", "9"⟩ = some true := by decide +kernel
  have hpasses : ∀ n ∈ [(⟨"a", .step (some "b")⟩ : Node),
      ⟨"b", .requirement ⟨"1.0", "", "", "9"⟩ (some "c")⟩], n.Passes organizer := by
    rw [List.forall_mem_cons, List.forall_mem_singleton]
    exact ⟨.inl rfl, .inr ⟨_, rfl, hmet⟩⟩
  have hhalts : Node.Halts organizer ⟨"c", .requirement ⟨"1.0", "2.0", "", ""⟩ (some "e")⟩ := by
    refine ⟨Option.some_ne_none _, fun r hr => ?_⟩
    cases hr
    decide +kernel
  obtain ⟨hrun, -⟩ :=
    (skipped_met_iff ⟨organizer, mixed, [], ∅, ∅⟩).2.1 .opening _ _ _ hchain hhalts
    rfl fun n hn => (hpasses n hn).not_halts
  refine ⟨hchain, hmet, hrun.mpr ⟨fun n hn r hr => ?_, by decide⟩⟩
  rw [(hpasses n hn).isMet? hr]
  exact Option.some_ne_none _

/-- Whatever the organizer, there is a script of met requirements with which no dialog can be
opened, and one with which none can go on. -/
theorem skipped_not_all :
    (∀ org : Organizer, ∃ s : Script, ∃ pre node,
      s.Chain (some s.start) (pre ++ [node]) ∧ (∀ n ∈ pre, n.Passes org) ∧ node.Halts org ∧
      ∀ g, (start ⟨org, s, [], ∅, ∅⟩ (blank g)).2 = some (.script .tooDeep)) ∧
    ∀ org : Organizer, ∃ s : Script, ∃ pre node,
      s.Chain (some s.start) (pre ++ [node]) ∧ (∀ n ∈ pre, n.Passes org) ∧ node.Halts org ∧
      ∀ d : Dialog, (runFrom ⟨org, s, [], ∅, ∅⟩ d (some s.start)).2 = some (.script .tooDeep) := by
  refine ⟨fun org => ?_, fun org => ?_⟩
  · obtain ⟨s, pre, node, hchain, hpasses, -, hhalts, hdeep⟩ :=
      exists_tooDeep org org.host.openingRoom
    have hrun : s.run org .opening = .error .tooDeep := hdeep
    exact ⟨s, pre, node, hchain, hpasses, hhalts, fun g => by rw [start, hrun]⟩
  · obtain ⟨s, pre, node, hchain, hpasses, -, hhalts, hdeep⟩ :=
      exists_tooDeep org org.host.goingRoom
    have hrun : s.run org (.page (some s.start)) = .error .tooDeep := hdeep
    exact ⟨s, pre, node, hchain, hpasses, hhalts, fun d => by rw [runFrom, hrun]⟩

end ModWizard.Dialog
