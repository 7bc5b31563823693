import Mathlib.Data.List.Forall2

/-!
# Two runs side by side

To compare two runs, a relation between their values is lifted to what may hold such values: to
options (`Option.Rel`), to lists (`List.Forall₂`), and to outcomes that may be faults (`SameEnd`).
-/

namespace ModWizard

/-- That two outcomes are the same fault, or results that are related. -/
inductive SameEnd {ε α β : Type} (R : α → β → Prop) : Except ε α → Except ε β → Prop
  | error (f : ε) : SameEnd R (.error f) (.error f)
  | ok {a : α} {b : β} (h : R a b) : SameEnd R (.ok a) (.ok b)

variable {ε α β γ δ : Type} {R : α → β → Prop}

namespace SameEnd

variable {S : γ → δ → Prop} {x : Except ε α} {y : Except ε β}

theorem map {f : α → γ} {g : β → δ} (h : SameEnd R x y) (hfg : ∀ a b, R a b → S (f a) (g b)) :
    SameEnd S (x.map f) (y.map g) := by
  cases h with
  | error f => exact .error f
  | ok h => exact .ok (hfg _ _ h)

theorem of_eq {x y : Except ε α} (h : y = x) : SameEnd (fun a b => b = a) x y := by
  subst h
  cases y with
  | error f => exact .error f
  | ok a => exact .ok rfl

/-- Two outcomes with the same end, as a match takes them apart. -/
theorem cases_eq (h : SameEnd R x y) :
    (∃ f, x = .error f ∧ y = .error f) ∨ ∃ a b, x = .ok a ∧ y = .ok b ∧ R a b := by
  cases h with
  | error f => exact .inl ⟨f, rfl, rfl⟩
  | ok h => exact .inr ⟨_, _, rfl, rfl, h⟩

end SameEnd

variable {x : Option α} {y : Option β}

/-- Two related options, as a match takes them apart. -/
theorem rel_cases (h : Option.Rel R x y) :
    x = none ∧ y = none ∨ ∃ a b, x = some a ∧ y = some b ∧ R a b := by
  cases h with
  | none => exact .inl ⟨rfl, rfl⟩
  | some h => exact .inr ⟨_, _, rfl, rfl, h⟩

theorem rel_map {S : γ → δ → Prop} {f : α → γ} {g : β → δ} (h : Option.Rel R x y)
    (hfg : ∀ a b, R a b → S (f a) (g b)) : Option.Rel S (x.map f) (y.map g) := by
  cases h with
  | none => exact .none
  | some h => exact .some (hfg _ _ h)

theorem rel_mono {S : α → β → Prop} (h : Option.Rel R x y) (hRS : ∀ a b, R a b → S a b) :
    Option.Rel S x y := by
  cases h with
  | none => exact .none
  | some h => exact .some (hRS _ _ h)

end ModWizard
