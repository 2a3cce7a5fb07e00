import Recordlane.Library.Run

/-! Two runs side by side: results that agree, rows that agree one by one, and systems that answer
alike. -/

namespace Except

variable {ε α β γ δ : Type} {R : α → β → Prop} {S : γ → δ → Prop}

/-- Two results agree: both raise the same, or both return and the values are related. -/
inductive Agree (R : α → β → Prop) : Except ε α → Except ε β → Prop
  | ok {a : α} {b : β} (h : R a b) : Agree R (.ok a) (.ok b)
  | error (e : ε) : Agree R (.error e) (.error e)

namespace Agree

theorem refl {R : α → α → Prop} (h : ∀ a, R a a) (x : Except ε α) : Agree R x x := by
  cases x with
  | ok a => exact .ok (h a)
  | error e => exact .error e

theorem mono {R' : α → β → Prop} {x : Except ε α} {y : Except ε β} (h : Agree R x y)
    (hR : ∀ a b, R a b → R' a b) : Agree R' x y := by
  cases h with
  | ok h => exact .ok (hR _ _ h)
  | error e => exact .error e

theorem bind {x : Except ε α} {y : Except ε β} {f : α → Except ε γ} {g : β → Except ε δ}
    (h : Agree R x y) (hfg : ∀ a b, R a b → Agree S (f a) (g b)) : Agree S (x >>= f) (y >>= g) := by
  cases h with
  | ok h => exact hfg _ _ h
  | error e => exact .error e

theorem map {x : Except ε α} {y : Except ε β} {f : α → γ} {g : β → δ} (h : Agree R x y)
    (hfg : ∀ a b, R a b → S (f a) (g b)) : Agree S (x.map f) (y.map g) := by
  cases h with
  | ok h => exact .ok (hfg _ _ h)
  | error e => exact .error e

end Agree

end Except

namespace List.Forall₂

variable {α β γ : Type*} {R : α → β → Prop} {xs : List α} {ys : List β} {p : α → Bool} {q : β → Bool}

theorem trans {S : β → γ → Prop} {T : α → γ → Prop} (h : ∀ a b c, R a b → S b c → T a c) {zs : List γ}
    (hR : List.Forall₂ R xs ys) (hS : List.Forall₂ S ys zs) : List.Forall₂ T xs zs := by
  induction hR generalizing zs with
  | nil =>
    cases hS
    exact .nil
  | cons hab _ ih =>
    cases hS with
    | cons hbc hrest => exact .cons (h _ _ _ hab hbc) (ih hrest)

theorem find? (h : List.Forall₂ R xs ys) (hpq : ∀ a b, R a b → p a = q b) :
    Option.Rel R (xs.find? p) (ys.find? q) := by
  induction h with
  | nil => exact .none
  | @cons a b xs ys hab _ ih =>
    rw [List.find?_cons, List.find?_cons, hpq a b hab]
    cases q b with
    | true => exact .some hab
    | false => exact ih

theorem any (h : List.Forall₂ R xs ys) (hpq : ∀ a b, R a b → p a = q b) : xs.any p = ys.any q := by
  induction h with
  | nil => rfl
  | cons hab _ ih => rw [List.any_cons, List.any_cons, hpq _ _ hab, ih]

theorem map_eq {f : α → γ} {g : β → γ} (h : List.Forall₂ R xs ys) (hfg : ∀ a b, R a b → f a = g b) :
    xs.map f = ys.map g := by
  rw [← List.forall₂_eq_eq_eq, List.forall₂_map_left_iff, List.forall₂_map_right_iff]
  exact h.imp hfg

end List.Forall₂

namespace System

variable {σ ι ω : Type*} (S : System σ ι ω)

/-- The answers of a run. -/
def outputs : σ → List ι → List ω
  | _, [] => []
  | s, i :: is => (S.step s i).2 :: outputs (S.next s i) is

/-- Two runs whose inputs are alike stay alike and get the same answers, if every step does so. -/
theorem run_agrees {R : σ → σ → Prop} {A : ι → ι → Prop} (hstep : ∀ s t i j, R s t → A i j →
      R (S.next s i) (S.next t j) ∧ (S.step s i).2 = (S.step t j).2) {s t : σ} {is js : List ι}
    (hR : R s t) (hA : List.Forall₂ A is js) :
    R (S.run s is) (S.run t js) ∧ S.outputs s is = S.outputs t js := by
  induction hA generalizing s t with
  | nil => exact ⟨hR, rfl⟩
  | cons hij _ ih =>
    obtain ⟨hnext, hanswer⟩ := hstep _ _ _ _ hR hij
    obtain ⟨hrun, houtputs⟩ := ih hnext
    refine ⟨hrun, ?_⟩
    rw [outputs, outputs, hanswer, houtputs]

end System
