import ModWizard.Proofs.Dialog.Undo

/-!
# The pages beside the questions, all along

Whatever the user does, a page that is not a question's is the one that was made for a stop of the
script; only the tweak file that is looked at on the page at the end changes (`Reachable.founded`).
So what the dialog says of sub-packages, renamings and tweaks is a matter of the outcome alone, and
what it says of versions is a matter of the requirement.
-/

namespace ModWizard.Dialog

open Script (Source Stop)

variable {setup : Setup} {d d' : Dialog}

/-! ## Pages made for stops -/

/-- That each page in the stack that is not a question's shows something at which the script
stops. -/
def Founded (setup : Setup) (d : Dialog) : Prop :=
  ∀ P ∈ d.stack.pages, (∀ k, P ≠ .question k) → ∃ source s,
    stopFrom? setup source = some s ∧ Shows setup d P s

theorem Founded.of_subset (h : Founded setup d) (hs : d'.stack.pages ⊆ d.stack.pages) :
    Founded setup d' := fun P hP hne => by
  obtain ⟨source, s, hstop, hshows⟩ := h P (hs hP) hne
  exact ⟨source, s, hstop, hshows.congr fun k hk => absurd hk (hne k)⟩

theorem Founded.of_stack (h : Founded setup d) (hs : d'.stack = d.stack) : Founded setup d' :=
  h.of_subset (by rw [hs]; exact List.Subset.refl _)

theorem Founded.showStop {s : Stop} {source : Source} (h : Founded setup d)
    (hs : stopFrom? setup source = some s) : Founded setup (showStop setup d s).1 := by
  by_cases hsh : (Dialog.showStop setup d s).2 = none
  · obtain ⟨P, d₁, he, -, hP, -⟩ := showStop_of_shown hsh
    obtain ⟨Ps, hPs, hsub⟩ := Stack.pages_push (s := d.stack) (P := P)
    intro Q hQ hne
    rw [he, stack_update, hPs, List.mem_append, List.mem_singleton] at hQ
    obtain hQ | rfl := hQ
    · obtain ⟨source, s, hstop, hshows⟩ := h Q (hsub.subset hQ) hne
      exact ⟨source, s, hstop, hshows.congr fun k hk => absurd hk (hne k)⟩
    · exact ⟨source, s, hs, hP.congr fun k hk => absurd hk (hne k)⟩
  · obtain he | ⟨k, p, -, -, he⟩ := showStop_of_refused hsh <;> rw [he]
    · exact h
    · exact h.of_stack rfl

theorem Founded.touch (h : Founded setup d) (ht : Touch setup d d') : Founded setup d' := by
  cases ht with
  | aside hs => exact h.of_stack hs.stack
  | current row hs => exact h.of_stack (hs.stack.trans (stack_setCurrentRow row))
  | check row on =>
    refine h.of_stack ?_
    unfold setCheckedRow
    split <;> rfl
  | tweak row =>
    intro P hP hne
    obtain hP | ⟨q, hq, rfl⟩ := mem_of_setTweakRow hP
    · obtain ⟨source, s, hstop, hshows⟩ := h P hP hne
      exact ⟨source, s, hstop, hshows.congr fun k hk => absurd hk (hne k)⟩
    · obtain ⟨source, s, hstop, k, o, next, i, rfl, rfl⟩ := h _ hq fun _ he => by cases he
      obtain ⟨l, hl⟩ := CompletePage.setRow_setRow_create setup.packages o i row
      exact ⟨source, _, hstop, k, o, next, l, rfl, hl⟩
  | back => exact h.of_subset (by rw [stack_back]; exact Stack.pages_pop_sublist.subset)

/-- Every action leaves the pages beside the questions as they were made. -/
theorem Founded.act (h : Founded setup d) (a : Action) : Founded setup (d.act setup a).1 := by
  cases hc : d.comesTo setup a with
  | none => exact h.touch (act_of_comesTo_eq_none hc)
  | some s =>
    obtain ⟨d', hd', hs, ha⟩ := act_of_comesTo_eq_some hc
    obtain ⟨_, -, hs⟩ := Option.bind_eq_some_iff.mp hs
    rw [ha]
    refine showStop ?_ hs
    obtain hd' | ⟨row, hd'⟩ := hd'
    · exact h.of_stack hd'.stack
    · exact h.of_stack (hd'.stack.trans (stack_setCurrentRow row))

theorem founded_start {g : Guess} (h : start setup (blank g) = (d, none)) : Founded setup d := by
  obtain ⟨P, d₁, s, rfl, -, hs, hsh⟩ := start_eq_none h
  intro Q hQ hne
  rw [stack_update, List.mem_singleton] at hQ
  subst hQ
  exact ⟨_, s, hs, hsh.congr fun k hk => absurd hk (hne k)⟩

/-- In a dialog that a run comes to, every page beside the questions shows a stop of the script. -/
theorem Reachable.founded (h : Reachable setup d) : Founded setup d :=
  h.invariant (fun _ _ => founded_start) fun _ a _ hc => hc.act a

/-- Every page at the end shows an outcome of the script. -/
theorem Reachable.concluded (h : Reachable setup d) (p : CompletePage)
    (hp : Page.complete p ∈ d.stack.pages) : ∃ source k o next,
    stopFrom? setup source = some (.done k o next) ∧
      Shows setup d (.complete p) (.done k o next) := by
  obtain ⟨source, _, hs, k, o, next, row, rfl, hpo⟩ := h.founded _ hp fun _ he => by cases he
  exact ⟨source, k, o, next, hs, k, o, next, row, rfl, hpo⟩

theorem Sound.mem_of_top? {P : Page} (h : Sound d) (hP : d.top? = some P) : P ∈ d.stack.pages := by
  obtain ⟨n, Q, -, hQ, htop⟩ := h.exists_top
  rw [hP] at htop
  cases htop
  exact List.mem_iff_getElem?.mpr ⟨n, hQ⟩

theorem Reachable.shows_outcome {p : CompletePage} (h : Reachable setup d)
    (hp : d.top? = some (.complete p)) : ∃ source k o next,
    stopFrom? setup source = some (.done k o next) ∧ Shows setup d (.complete p) (.done k o next) :=
  h.concluded p (h.sound.mem_of_top? hp)

end ModWizard.Dialog
