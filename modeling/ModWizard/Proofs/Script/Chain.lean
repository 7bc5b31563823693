import Mathlib.Data.Finset.Card
import Mathlib.Data.Finset.Range
import ModWizard.Proofs.Table
import ModWizard.Script.Run

/-!
# Runs along the chain of nodes

From a node each node leads to the next: the execution chain of the script.  A run follows it over
steps and over requirements that are met, and stops at the first node that is neither
(`runWithin_eq_ok_iff`).  Only two things keep it from that node: a requirement on the way whose
versions cannot be read, and too many requirements on the way.  However many steps there are, none
is too many, for a row of steps that is longer than the script goes round (`follow_of_step`).
-/

namespace ModWizard.Script

variable {s : Script} {id : Option String} {node : Node} {stop : Stop} {k : Nat}

/-! ### Nodes -/

namespace Node

/-- The node that follows a node at which nothing is chosen. -/
def next? (n : Node) : Option String :=
  match n.body with
  | .step next => next
  | .question q => q.next
  | .requirement _ next => next
  | .done _ next => next
  | .cancel _ next => next
  | .error _ => none
  | .stuck next => next

/-- What a script stops at in a node, if the node is no step. -/
def stop? (n : Node) : Option Stop :=
  match n.body with
  | .step _ => none
  | .question q => some (.question n.key q)
  | .requirement r next => some (.requirement n.key r next)
  | .done o next => some (.done n.key o next)
  | .cancel m next => some (.cancel n.key m next)
  | .error m => some (.error m)
  | .stuck next => some (.stuck n.key next)

/-- The requirement of a node, if it has one. -/
def requirement? (n : Node) : Option Requirement :=
  match n.body with
  | .requirement r _ => some r
  | _ => none

/-- That a script runs over a node: a step, or a requirement that is met. -/
def Passes (org : Organizer) (n : Node) : Prop :=
  n.stop? = none ∨ ∃ r, n.requirement? = some r ∧ r.isMet? org = some true

/-- That a script stops at a node: neither a step nor a requirement, or a requirement that is not
met. -/
def Halts (org : Organizer) (n : Node) : Prop :=
  n.stop? ≠ none ∧ ∀ r, n.requirement? = some r → r.isMet? org = some false

end Node

theorem requirement?_of_step (h : node.stop? = none) : node.requirement? = none := by
  obtain ⟨key, body⟩ := node
  cases body with
  | step => rfl
  | question | requirement | done | cancel | error | stuck => cases h

theorem stop?_of_requirement? {r : Requirement} (h : node.requirement? = some r) :
    node.stop? = some (.requirement node.key r node.next?) := by
  obtain ⟨key, body⟩ := node
  cases body <;> cases h
  rfl

theorem requirement?_of_stop? {key : String} {r : Requirement} {next : Option String}
    (h : node.stop? = some (.requirement key r next)) : node.requirement? = some r := by
  obtain ⟨key, body⟩ := node
  cases body <;> cases h
  rfl

theorem Node.Passes.not_halts {org : Organizer} (h : node.Passes org) : ¬ node.Halts org := by
  rintro ⟨hstop, hunmet⟩
  obtain hnone | ⟨r, hr, hmet⟩ := h
  · exact hstop hnone
  · cases (hunmet r hr).symm.trans hmet

theorem Node.Passes.isMet? {org : Organizer} {r : Requirement} (h : node.Passes org)
    (hr : node.requirement? = some r) : r.isMet? org = some true := by
  obtain hnone | ⟨r', hr', hmet⟩ := h
  · cases (requirement?_of_step hnone).symm.trans hr
  · cases hr'.symm.trans hr
    exact hmet

/-- A node at which the script does not stop is passed, unless it has a requirement that cannot be
compared. -/
theorem Node.passes_iff_of_not_halts {org : Organizer} (h : ¬ node.Halts org) :
    node.Passes org ↔ ∀ r, node.requirement? = some r → r.isMet? org ≠ none := by
  constructor
  · intro hpasses r hr
    rw [hpasses.isMet? hr]
    exact Option.some_ne_none _
  · intro hreadable
    cases hr : node.requirement? with
    | none =>
      refine .inl (Decidable.byContradiction fun hstop => h ⟨hstop, fun r hr' => ?_⟩)
      cases hr.symm.trans hr'
    | some r =>
      cases hmet : r.isMet? org with
      | none => exact absurd hmet (hreadable r hr)
      | some b =>
        cases b with
        | true => exact .inr ⟨r, hr, hmet⟩
        | false =>
          refine absurd ⟨by simp [stop?_of_requirement? hr], fun r' hr' => ?_⟩ h
          cases hr.symm.trans hr'
          exact hmet

/-! ### Rows of steps -/

theorem followWithin_of_stop (h : s.node? id = some node) (hs : node.stop? = some stop) :
    s.followWithin (k + 1) id = .ok stop := by
  obtain ⟨key, body⟩ := node
  simp only [followWithin, h]
  cases body <;> cases hs <;> rfl

theorem followWithin_of_step (h : s.node? id = some node) (hs : node.stop? = none) :
    s.followWithin (k + 1) id = s.followWithin k node.next? := by
  obtain ⟨key, body⟩ := node
  simp only [followWithin, h]
  cases body <;> cases hs
  rfl

theorem followWithin_of_none (h : s.node? id = none) :
    s.followWithin (k + 1) id = .error .noNode := by
  simp only [followWithin, h]

/-- The name of the node that follows the node of a name. -/
def hop (s : Script) (id : Option String) : Option String := (s.node? id).bind Node.next?

/-- Whether the node of a name is a step. -/
def IsStep (s : Script) (id : Option String) : Prop := ∃ n, s.node? id = some n ∧ n.stop? = none

theorem hop_of_node (h : s.node? id = some node) : s.hop id = node.next? := by
  rw [hop, h, Option.bind_some]

/-- A row of steps is too long if all that can be passed are steps. -/
theorem followWithin_eq_endless_iff :
    s.followWithin k id = .error .endless ↔ ∀ i < k, s.IsStep (s.hop^[i] id) := by
  induction k generalizing id with
  | zero => exact iff_of_true rfl fun _ h => absurd h (Nat.not_lt_zero _)
  | succ k ih =>
    have hsplit : (∀ i < k + 1, s.IsStep (s.hop^[i] id)) ↔
        s.IsStep id ∧ ∀ i < k, s.IsStep (s.hop^[i] (s.hop id)) := by
      rw [Nat.forall_lt_succ_left']
      rfl
    rw [hsplit]
    cases hn : s.node? id with
    | none =>
      rw [followWithin_of_none hn]
      exact iff_of_false (by simp) fun h => by simp [IsStep, hn] at h
    | some node =>
      cases hs : node.stop? with
      | none =>
        rw [followWithin_of_step hn hs, ih, ← hop_of_node hn]
        exact (and_iff_right ⟨node, hn, hs⟩).symm
      | some stop =>
        rw [followWithin_of_stop hn hs]
        exact iff_of_false (by simp) fun h => by simp [IsStep, hn, hs] at h

theorem IsStep.mem_keys (h : s.IsStep id) : ∃ key ∈ s.nodes.keys, some key = id := by
  obtain ⟨n, hn, -⟩ := h
  obtain ⟨key, rfl, hkey⟩ := Option.bind_eq_some_iff.mp hn
  exact ⟨key, Table.mem_keys_iff.mpr ⟨n, hkey⟩, rfl⟩

/-- Of more steps in a row than there are nodes two are the same, so another one follows. -/
theorem isStep_of_forall (h : ∀ i < s.nodes.entries.length + 1, s.IsStep (s.hop^[i] id)) :
    s.IsStep (s.hop^[s.nodes.entries.length + 1] id) := by
  have hcard : (s.nodes.keys.map some).toFinset.card <
      (Finset.range (s.nodes.entries.length + 1)).card := by
    rw [Finset.card_range]
    refine Nat.lt_succ_of_le ((List.toFinset_card_le _).trans (le_of_eq ?_))
    simp [Table.keys]
  have hmaps : ∀ i ∈ Finset.range (s.nodes.entries.length + 1),
      s.hop^[i] id ∈ (s.nodes.keys.map some).toFinset := fun i hi => by
    obtain ⟨key, hkey, he⟩ := (h i (Finset.mem_range.mp hi)).mem_keys
    exact List.mem_toFinset.mpr (List.mem_map.mpr ⟨key, hkey, he⟩)
  obtain ⟨i, hi, j, hj, hne, heq⟩ := Finset.exists_ne_map_eq_of_card_lt_of_maps_to hcard hmaps
  rw [Finset.mem_range] at hi hj
  wlog hij : i < j generalizing i j
  · exact this j hj i hi hne.symm heq.symm (by omega)
  have hagain : s.hop^[s.nodes.entries.length + 1] id =
      s.hop^[s.nodes.entries.length + 1 - j + i] id := by
    rw [Function.iterate_add_apply _ (s.nodes.entries.length + 1 - j) i, heq,
      ← Function.iterate_add_apply, Nat.sub_add_cancel (by omega)]
  rw [hagain]
  exact h _ (by omega)

/-- A finished row of steps is the same if more may be passed. -/
theorem followWithin_succ (h : s.followWithin k id ≠ .error .endless) :
    s.followWithin (k + 1) id = s.followWithin k id := by
  induction k generalizing id with
  | zero => exact absurd rfl h
  | succ k ih =>
    cases hn : s.node? id with
    | none => rw [followWithin_of_none hn, followWithin_of_none hn]
    | some node =>
      cases hs : node.stop? with
      | none =>
        rw [followWithin_of_step hn hs] at h ⊢
        rw [ih h, followWithin_of_step hn hs]
      | some stop => rw [followWithin_of_stop hn hs, followWithin_of_stop hn hs]

/-- To follow the steps from a step is to follow them from the next node. -/
theorem follow_of_step (h : s.node? id = some node) (hs : node.stop? = none) :
    s.follow id = s.follow node.next? := by
  have hmore : s.followWithin (s.nodes.entries.length + 2) id =
      s.followWithin (s.nodes.entries.length + 1) id := by
    by_cases hend : s.followWithin (s.nodes.entries.length + 1) id = .error .endless
    · rw [hend, followWithin_eq_endless_iff]
      have hsteps := followWithin_eq_endless_iff.mp hend
      intro i hi
      obtain hi | rfl := Nat.lt_succ_iff_lt_or_eq.mp hi
      · exact hsteps i hi
      · exact isStep_of_forall hsteps
    · exact followWithin_succ hend
  rw [follow, ← hmore, followWithin_of_step h hs, follow]

theorem follow_of_stop (h : s.node? id = some node) (hs : node.stop? = some stop) :
    s.follow id = .ok stop :=
  followWithin_of_stop h hs

/-! ### Runs -/

variable {org : Organizer} {met : Requirement → Option Bool} {r : Requirement}

theorem runWithin_of_step (h : s.node? id = some node) (hs : node.stop? = none) :
    s.runWithin met k id = s.runWithin met k node.next? := by
  cases k with
  | zero => rfl
  | succ k => simp only [runWithin, follow_of_step h hs]

theorem runWithin_of_met (h : s.node? id = some node) (hr : node.requirement? = some r)
    (hm : met r = some true) : s.runWithin met (k + 1) id = s.runWithin met k node.next? := by
  rw [runWithin, follow_of_stop h (stop?_of_requirement? hr)]
  simp only [hm]

theorem runWithin_of_unreadable (h : s.node? id = some node) (hr : node.requirement? = some r)
    (hm : met r = none) : s.runWithin met (k + 1) id = .error .unreadableVersion := by
  rw [runWithin, follow_of_stop h (stop?_of_requirement? hr)]
  simp only [hm]

/-- A run ends at a node that is no step, if its requirement is not met or if it has none. -/
theorem runWithin_of_stop (h : s.node? id = some node) (hs : node.stop? = some stop)
    (hr : ∀ r, node.requirement? = some r → met r = some false) :
    s.runWithin met (k + 1) id = .ok stop := by
  rw [runWithin, follow_of_stop h hs]
  obtain ⟨key, body⟩ := node
  cases body with
  | step => cases hs
  | requirement r next =>
    cases hs
    simp only [hr r rfl]
  | question | done | cancel | error | stuck =>
    cases hs
    rfl

/-! ### The chain -/

/-- That the chain of nodes from a node begins with some nodes. -/
def Chain (s : Script) : Option String → List Node → Prop
  | _, [] => True
  | id, n :: ns => s.node? id = some n ∧ Chain s n.next? ns

/-- How many of some nodes are requirements. -/
def demands (ns : List Node) : Nat := ns.countP (·.requirement?.isSome)

/-- Two beginnings of the chain agree as far as both go. -/
theorem Chain.eq_of_halts {pre pre' : List Node} {node' : Node} (h : s.Chain id (pre ++ [node]))
    (h' : s.Chain id (pre' ++ [node'])) {P : Node → Prop} (hn : P node) (hn' : P node')
    (hpre : ∀ n ∈ pre, ¬ P n) (hpre' : ∀ n ∈ pre', ¬ P n) : pre = pre' ∧ node = node' := by
  induction pre generalizing id pre' with
  | nil =>
    cases pre' with
    | nil => exact ⟨rfl, Option.some.inj (h.1.symm.trans h'.1)⟩
    | cons n pre' =>
      cases h.1.symm.trans h'.1
      exact absurd hn (hpre' _ List.mem_cons_self)
  | cons n pre ih =>
    rw [List.forall_mem_cons] at hpre
    cases pre' with
    | nil =>
      cases h.1.symm.trans h'.1
      exact absurd hn' hpre.1
    | cons n' pre' =>
      rw [List.forall_mem_cons] at hpre'
      cases h.1.symm.trans h'.1
      obtain ⟨rfl, rfl⟩ := ih h.2 h'.2 hpre.2 hpre'.2
      exact ⟨rfl, rfl⟩

theorem demands_cons_of_step {ns : List Node} (h : node.stop? = none) :
    demands (node :: ns) = demands ns :=
  List.countP_cons_of_neg (by simp [requirement?_of_step h])

theorem demands_cons_of_requirement {ns : List Node} (h : node.requirement? = some r) :
    demands (node :: ns) = demands ns + 1 :=
  List.countP_cons_of_pos (by simp [h])

/-- Along the chain, a run that may make enough halts comes to the first node at which it stops. -/
theorem Chain.runWithin_eq {pre : List Node} (h : s.Chain id (pre ++ [node]))
    (hpre : ∀ n ∈ pre, n.Passes org) (hn : node.Halts org) (hs : node.stop? = some stop) :
    s.runWithin (Requirement.isMet? org) k id =
      if demands pre < k then .ok stop else .error .tooDeep := by
  induction pre generalizing id k with
  | nil =>
    cases k with
    | zero => rfl
    | succ k => exact runWithin_of_stop h.1 hs hn.2
  | cons n pre ih =>
    rw [List.forall_mem_cons] at hpre
    obtain hstep | ⟨r, hr, hmet⟩ := hpre.1
    · rw [runWithin_of_step h.1 hstep, ih h.2 hpre.2, demands_cons_of_step hstep]
    · rw [demands_cons_of_requirement hr]
      cases k with
      | zero => rfl
      | succ k =>
        rw [runWithin_of_met h.1 hr hmet, ih h.2 hpre.2]
        simp only [Nat.add_lt_add_iff_right]

/-- Whatever a run stops at is the first node of the chain at which it stops. -/
theorem exists_chain_of_runWithin (h : s.runWithin (Requirement.isMet? org) k id = .ok stop) :
    ∃ pre node, s.Chain id (pre ++ [node]) ∧ node.Halts org ∧ node.stop? = some stop ∧
      (∀ n ∈ pre, n.Passes org) ∧ demands pre < k := by
  induction k generalizing id with
  | zero => cases h
  | succ k ih =>
    obtain ⟨st, hfollow⟩ : ∃ st, s.follow id = .ok st := by
      cases hf : s.follow id with
      | ok st => exact ⟨st, rfl⟩
      | error f =>
        rw [runWithin, hf] at h
        cases h
    -- the steps before the next halt, one after the other
    rw [follow] at hfollow
    generalize s.nodes.entries.length + 1 = m at hfollow
    induction m generalizing id with
    | zero => cases hfollow
    | succ m ihm =>
      cases hn : s.node? id with
      | none =>
        rw [followWithin_of_none hn] at hfollow
        cases hfollow
      | some node =>
        cases hs : node.stop? with
        | none =>
          rw [followWithin_of_step hn hs] at hfollow
          rw [runWithin_of_step hn hs] at h
          obtain ⟨pre, last, hchain, hlast, hstop, hpre, hcount⟩ := ihm h hfollow
          refine ⟨node :: pre, last, ⟨hn, hchain⟩, hlast, hstop,
            List.forall_mem_cons.mpr ⟨.inl hs, hpre⟩, ?_⟩
          rwa [demands_cons_of_step hs]
        | some st' =>
          by_cases hhalts : node.Halts org
          · rw [runWithin_of_stop hn hs hhalts.2] at h
            cases h
            exact ⟨[], node, ⟨hn, trivial⟩, hhalts, hs, List.forall_mem_nil _, Nat.succ_pos k⟩
          · obtain ⟨r, hr, hunmet⟩ :
                ∃ r, node.requirement? = some r ∧ r.isMet? org ≠ some false := by
              simpa [Node.Halts, hs] using hhalts
            cases hmet : r.isMet? org with
            | none =>
              rw [runWithin_of_unreadable hn hr hmet] at h
              cases h
            | some b =>
              cases b with
              | false => exact absurd hmet hunmet
              | true =>
                rw [runWithin_of_met hn hr hmet] at h
                obtain ⟨pre, last, hchain, hlast, hstop, hpre, hcount⟩ := ih h
                refine ⟨node :: pre, last, ⟨hn, hchain⟩, hlast, hstop,
                  List.forall_mem_cons.mpr ⟨.inr ⟨r, hr, hmet⟩, hpre⟩, ?_⟩
                rw [demands_cons_of_requirement hr]
                exact Nat.succ_lt_succ hcount

theorem runWithin_eq_ok_iff :
    s.runWithin (Requirement.isMet? org) k id = .ok stop ↔
      ∃ pre node, s.Chain id (pre ++ [node]) ∧ node.Halts org ∧ node.stop? = some stop ∧
        (∀ n ∈ pre, n.Passes org) ∧ demands pre < k := by
  refine ⟨exists_chain_of_runWithin, ?_⟩
  rintro ⟨pre, node, hchain, hn, hs, hpre, hcount⟩
  rw [hchain.runWithin_eq hpre hn hs, if_pos hcount]

/-- The first node at which a run should stop is what it stops at, if the requirements before it can
be compared and are not too many. -/
theorem Chain.runWithin_eq_ok_iff {pre : List Node} (h : s.Chain id (pre ++ [node]))
    (hn : node.Halts org) (hs : node.stop? = some stop) (hpre : ∀ n ∈ pre, ¬ n.Halts org) :
    s.runWithin (Requirement.isMet? org) k id = .ok stop ↔
      (∀ n ∈ pre, ∀ r, n.requirement? = some r → r.isMet? org ≠ none) ∧ demands pre < k := by
  have hpasses : (∀ n ∈ pre, n.Passes org) ↔
      ∀ n ∈ pre, ∀ r, n.requirement? = some r → r.isMet? org ≠ none :=
    forall₂_congr fun n hmem => Node.passes_iff_of_not_halts (hpre n hmem)
  rw [← hpasses, Script.runWithin_eq_ok_iff]
  constructor
  · rintro ⟨pre', node', hchain, hn', -, hpre', hcount⟩
    obtain ⟨rfl, rfl⟩ := h.eq_of_halts hchain hn hn' hpre fun n hmem => (hpre' n hmem).not_halts
    exact ⟨hpre', hcount⟩
  · rintro ⟨hpre, hcount⟩
    exact ⟨pre, node, h, hn, hs, hpre, hcount⟩

end ModWizard.Script
