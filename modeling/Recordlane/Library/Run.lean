import Mathlib.Data.List.Basic
import Mathlib.Data.List.Forall2

/-! Runs of a deterministic system that answers each input, and of fallible loops. -/

/-- A system takes inputs one at a time and answers each. -/
structure System (σ ι ω : Type*) where
  step : σ → ι → σ × ω

namespace System

variable {σ ι ω : Type*} (S : System σ ι ω) {P : σ → Prop} {R : σ → σ → Prop}
  {Φ Ψ : σ → ι → Prop} {s : σ}

def next (s : σ) (i : ι) : σ := (S.step s i).1

/-- The state after a sequence of inputs. -/
def run (s : σ) (is : List ι) : σ := is.foldl S.next s

@[simp] theorem run_nil : S.run s [] = s := rfl

@[simp] theorem run_cons {i : ι} {is : List ι} : S.run s (i :: is) = S.run (S.next s i) is := rfl

theorem run_append {is js : List ι} : S.run s (is ++ js) = S.run (S.run s is) js :=
  List.foldl_append

/-- Every input of the run meets `Φ` in the state it finds. -/
def Along (Φ : σ → ι → Prop) : σ → List ι → Prop
  | _, [] => True
  | s, i :: is => Φ s i ∧ Along Φ (S.next s i) is

instance instDecidableAlong [∀ s i, Decidable (Φ s i)] : (s : σ) → (is : List ι) → Decidable (S.Along Φ s is)
  | _, [] => .isTrue trivial
  | s, i :: is =>
    have := instDecidableAlong (S.next s i) is
    inferInstanceAs (Decidable (Φ s i ∧ S.Along Φ (S.next s i) is))

/-- The states a run finds, each with its input. -/
def trace : σ → List ι → List (σ × ι)
  | _, [] => []
  | s, i :: is => (s, i) :: trace (S.next s i) is

theorem along_append {is js : List ι} :
    S.Along Φ s (is ++ js) ↔ S.Along Φ s is ∧ S.Along Φ (S.run s is) js := by
  induction is generalizing s with
  | nil => simp [Along]
  | cons i is ih => simp [Along, ih, and_assoc]

theorem along_of_forall (h : ∀ s i, Φ s i) (is : List ι) : S.Along Φ s is := by
  induction is generalizing s with
  | nil => trivial
  | cons i is ih => exact ⟨h s i, ih⟩

theorem along_of_mem {is : List ι} (h : ∀ i ∈ is, ∀ s, Φ s i) : S.Along Φ s is := by
  induction is generalizing s with
  | nil => trivial
  | cons i is ih =>
    exact ⟨h i List.mem_cons_self s, ih fun j hj => h j (List.mem_cons_of_mem _ hj)⟩

theorem Along.mono {S : System σ ι ω} {is : List ι} (h : S.Along Φ s is)
    (hi : ∀ s i, Φ s i → Ψ s i) : S.Along Ψ s is := by
  induction is generalizing s with
  | nil => trivial
  | cons i is ih => exact ⟨hi _ _ h.1, ih h.2⟩

theorem Along.and {S : System σ ι ω} {is : List ι} (hΦ : S.Along Φ s is) (hΨ : S.Along Ψ s is) :
    S.Along (fun s i => Φ s i ∧ Ψ s i) s is := by
  induction is generalizing s with
  | nil => trivial
  | cons i is ih => exact ⟨⟨hΦ.1, hΨ.1⟩, ih hΦ.2 hΨ.2⟩

/-- A run meets a condition if and only if it does at every point. -/
theorem along_iff {is : List ι} :
    S.Along Φ s is ↔ ∀ first i rest, is = first ++ i :: rest → Φ (S.run s first) i := by
  induction is generalizing s with
  | nil => simp [Along]
  | cons i is ih =>
    rw [Along, ih]
    constructor
    · rintro ⟨hi, his⟩ first j rest heq
      cases first with
      | nil =>
        obtain ⟨rfl, -⟩ := List.cons.inj heq
        exact hi
      | cons i' first =>
        obtain ⟨rfl, htail⟩ := List.cons.inj heq
        exact his first j rest htail
    · intro h
      exact ⟨h [] i is rfl, fun first j rest heq => h (i :: first) j rest (by rw [heq]; rfl)⟩

theorem Along.at {S : System σ ι ω} {is js : List ι} {i : ι} (h : S.Along Φ s (is ++ i :: js)) :
    Φ (S.run s is) i := ((S.along_append).mp h).2.1

/-- What holds at first and is kept by every step taken holds after the run. -/
theorem run_invariant (hs : P s) {is : List ι} (hΦ : S.Along Φ s is)
    (hstep : ∀ s i, P s → Φ s i → P (S.next s i)) : P (S.run s is) := by
  induction is generalizing s with
  | nil => exact hs
  | cons i is ih => exact ih (hstep s i hs hΦ.1) hΦ.2

/-- An invariant of every step holds along the whole run, at every step taken. -/
theorem along_invariant (hs : P s) {is : List ι} (hΦ : S.Along Φ s is)
    (hstep : ∀ s i, P s → Φ s i → P (S.next s i)) : S.Along (fun s _ => P s) s is := by
  induction is generalizing s with
  | nil => trivial
  | cons i is ih => exact ⟨hs, ih (hstep s i hs hΦ.1) hΦ.2⟩

/-- Where a step keeps a property exactly if it meets a condition, a run has it throughout exactly if
every step meets the condition. -/
theorem run_invariant_iff (hs : P s) {is : List ι}
    (hstep : ∀ s i, P s → (P (S.next s i) ↔ Φ s i)) :
    (∀ first rest, is = first ++ rest → P (S.run s first)) ↔ S.Along Φ s is := by
  induction is generalizing s with
  | nil =>
    refine iff_of_true ?_ trivial
    intro first rest h
    obtain rfl := (List.append_eq_nil_iff.mp h.symm).1
    exact hs
  | cons i is ih =>
    constructor
    · intro h
      have hnext : P (S.next s i) := h [i] is rfl
      refine ⟨(hstep s i hs).mp hnext, (ih hnext).mp fun first rest heq => ?_⟩
      exact h (i :: first) rest (by rw [heq]; rfl)
    · rintro ⟨hi, his⟩ first rest heq
      cases first with
      | nil => exact hs
      | cons j first =>
        obtain ⟨rfl, htail⟩ := List.cons.inj heq
        exact (ih ((hstep s i hs).mpr hi)).mpr his first rest htail

/-- What every step does in a state that meets an invariant, every step of the run does. -/
theorem along_of_invariant (hs : P s) {is : List ι} (hΦ : S.Along Φ s is)
    (hstep : ∀ s i, P s → Φ s i → Ψ s i ∧ P (S.next s i)) : S.Along Ψ s is := by
  induction is generalizing s with
  | nil => trivial
  | cons i is ih =>
    obtain ⟨hi, hP⟩ := hstep s i hs hΦ.1
    exact ⟨hi, ih hP hΦ.2⟩

/-- A preorder that relates the ends of every step relates the ends of the run. -/
theorem run_relation (hrefl : ∀ s, R s s) (htrans : ∀ s t u, R s t → R t u → R s u)
    (hP : P s) {is : List ι} (hΦ : S.Along Φ s is)
    (hstep : ∀ s i, P s → Φ s i → P (S.next s i) ∧ R s (S.next s i)) : R s (S.run s is) := by
  induction is generalizing s with
  | nil => exact hrefl s
  | cons i is ih =>
    obtain ⟨hP', hR⟩ := hstep s i hP hΦ.1
    exact htrans _ _ _ hR (ih hP' hΦ.2)

end System

namespace Except

variable {ε α β σ : Type}

theorem bind_eq_ok {x : Except ε α} {f : α → Except ε β} {b : β} :
    (x >>= f) = .ok b ↔ ∃ a, x = .ok a ∧ f a = .ok b := by
  cases x <;> simp [bind, Except.bind]

theorem map_eq_ok {x : Except ε α} {f : α → β} {b : β} :
    f <$> x = .ok b ↔ ∃ a, x = .ok a ∧ f a = b := by
  cases x <;> simp [Functor.map, Except.map]

theorem pure_eq_ok {a b : α} : (pure a : Except ε α) = .ok b ↔ a = b := by
  simp [pure, Except.pure]

instance instDecidableEqOk [DecidableEq α] : (x : Except ε α) → (a : α) → Decidable (x = .ok a)
  | .ok b, a => decidable_of_iff (b = a) (by simp)
  | .error _, _ => .isFalse (by simp)

/-- What every round of a loop keeps holds after the loop. -/
theorem foldlM_invariant {P : σ → Prop} {f : σ → α → Except ε σ} {xs : List α} {s t : σ}
    (h : xs.foldlM f s = .ok t) (hs : P s)
    (hf : ∀ s x t, x ∈ xs → P s → f s x = .ok t → P t) : P t := by
  induction xs generalizing s with
  | nil =>
    rw [List.foldlM_nil, pure_eq_ok] at h
    exact h ▸ hs
  | cons x xs ih =>
    rw [List.foldlM_cons, bind_eq_ok] at h
    obtain ⟨u, hu, h⟩ := h
    exact ih h (hf s x u List.mem_cons_self hs hu)
      fun s y t hy => hf s y t (List.mem_cons_of_mem _ hy)

/-- What every round extends by its member holds of all members after the loop. -/
theorem foldlM_extends {P : List α → σ → Prop} {f : σ → α → Except ε σ} {done xs : List α} {s t : σ}
    (h : xs.foldlM f s = .ok t) (hs : P done s)
    (hf : ∀ done s x t, x ∈ xs → P done s → f s x = .ok t → P (done ++ [x]) t) : P (done ++ xs) t := by
  induction xs generalizing s done with
  | nil =>
    rw [List.foldlM_nil, pure_eq_ok] at h
    rw [List.append_nil]
    exact h ▸ hs
  | cons x xs ih =>
    rw [List.foldlM_cons, bind_eq_ok] at h
    obtain ⟨u, hu, h⟩ := h
    have hall := ih h (hf done s x u List.mem_cons_self hs hu)
      fun done s y t hy => hf done s y t (List.mem_cons_of_mem _ hy)
    rwa [List.append_assoc] at hall

/-- Each round of a loop establishes something of its member, and what holds of those that are apart from
the member stays. -/
theorem foldlM_establishes {P : σ → Prop} {Q : σ → α → Prop} {R : α → α → Prop}
    {f : σ → α → Except ε σ} {xs : List α} {s t : σ} (h : xs.foldlM f s = .ok t) (hs : P s)
    (hapart : xs.Pairwise R) (hround : ∀ s x t, x ∈ xs → P s → f s x = .ok t →
      P t ∧ Q t x ∧ ∀ y, R y x → Q s y → Q t y) :
    P t ∧ (∀ x ∈ xs, Q t x) ∧ ∀ y, (∀ x ∈ xs, R y x) → Q s y → Q t y := by
  induction xs generalizing s with
  | nil =>
    rw [List.foldlM_nil, pure_eq_ok] at h
    exact ⟨h ▸ hs, nofun, fun y _ hy => h ▸ hy⟩
  | cons x xs ih =>
    rw [List.foldlM_cons, bind_eq_ok] at h
    obtain ⟨u, hu, h⟩ := h
    obtain ⟨hx, hxs⟩ := List.pairwise_cons.mp hapart
    obtain ⟨hPu, hQu, hkept⟩ := hround s x u List.mem_cons_self hs hu
    obtain ⟨hPt, hQt, hkept'⟩ := ih h hPu hxs fun s y t hy => hround s y t (List.mem_cons_of_mem _ hy)
    refine ⟨hPt, fun y hy => ?_, fun y hy hQ => ?_⟩
    · rcases List.mem_cons.mp hy with rfl | hy
      · exact hkept' y hx hQu
      · exact hQt y hy
    · exact hkept' y (fun z hz => hy z (List.mem_cons_of_mem _ hz)) (hkept y (hy x List.mem_cons_self) hQ)

/-- Loops keep an agreement that their rounds keep, as long as the first one goes through. -/
theorem foldlM_agree {τ : Type} {R : σ → τ → Prop} {f : σ → α → Except ε σ} {g : τ → α → Except ε τ}
    {xs : List α} {s s' : σ} {t : τ} (h : xs.foldlM f s = .ok s') (hst : R s t)
    (hfg : ∀ s t x s', R s t → f s x = .ok s' → ∃ t', g t x = .ok t' ∧ R s' t') :
    ∃ t', xs.foldlM g t = .ok t' ∧ R s' t' := by
  induction xs generalizing s t with
  | nil =>
    rw [List.foldlM_nil, pure_eq_ok] at h
    exact ⟨t, rfl, h ▸ hst⟩
  | cons x xs ih =>
    rw [List.foldlM_cons, bind_eq_ok] at h
    obtain ⟨u, hu, h⟩ := h
    obtain ⟨v, hv, huv⟩ := hfg s t x u hst hu
    obtain ⟨t', ht', hR⟩ := ih h huv
    refine ⟨t', ?_, hR⟩
    rw [List.foldlM_cons, bind_eq_ok]
    exact ⟨v, hv, ht'⟩

theorem forall₂_mem {γ : Type} {R : α → γ → Prop} {xs : List α} {ys : List γ} (h : List.Forall₂ R xs ys) :
    (∀ y ∈ ys, ∃ x ∈ xs, R x y) ∧ ∀ x ∈ xs, ∃ y ∈ ys, R x y := by
  induction h with
  | nil => simp
  | @cons x y xs ys hxy _ ih =>
    constructor
    · intro y' hy
      rcases List.mem_cons.mp hy with rfl | hy
      · exact ⟨x, List.mem_cons_self, hxy⟩
      · obtain ⟨x', hx, hxy'⟩ := ih.1 y' hy
        exact ⟨x', List.mem_cons_of_mem _ hx, hxy'⟩
    · intro x' hx
      rcases List.mem_cons.mp hx with rfl | hx
      · exact ⟨y, List.mem_cons_self, hxy⟩
      · obtain ⟨y', hy, hxy'⟩ := ih.2 x' hx
        exact ⟨y', List.mem_cons_of_mem _ hy, hxy'⟩

theorem of_any {x : Except ε α} {p : α → Bool} (h : x.toOption.any p = true) :
    ∃ a, x = .ok a ∧ p a = true := by
  cases x with
  | error e => cases h
  | ok a => exact ⟨a, rfl, h⟩

theorem mapM_forall₂ {f : α → Except ε β} {xs : List α} {bs : List β} (h : xs.mapM f = .ok bs) :
    List.Forall₂ (fun x b => f x = .ok b) xs bs := by
  induction xs generalizing bs with
  | nil =>
    rw [List.mapM_nil, pure_eq_ok] at h
    exact h ▸ .nil
  | cons x xs ih =>
    simp only [List.mapM_cons, bind_eq_ok, pure_eq_ok] at h
    obtain ⟨b, hb, bs', hbs, rfl⟩ := h
    exact .cons hb (ih hbs)

theorem mapM_mem {f : α → Except ε β} {xs : List α} {bs : List β} (h : xs.mapM f = .ok bs) :
    (∀ b ∈ bs, ∃ x ∈ xs, f x = .ok b) ∧ ∀ x ∈ xs, ∃ b ∈ bs, f x = .ok b :=
  forall₂_mem (mapM_forall₂ h)

theorem mapM_isOk {f : α → Except ε β} {xs : List α} (h : ∀ x ∈ xs, ∃ b, f x = .ok b) :
    ∃ bs, xs.mapM f = .ok bs := by
  induction xs with
  | nil => exact ⟨[], rfl⟩
  | cons x xs ih =>
    obtain ⟨b, hb⟩ := h x List.mem_cons_self
    obtain ⟨bs, hbs⟩ := ih fun y hy => h y (List.mem_cons_of_mem _ hy)
    refine ⟨b :: bs, ?_⟩
    simp only [List.mapM_cons, bind_eq_ok, pure_eq_ok]
    exact ⟨b, hb, bs, hbs, rfl⟩

theorem mapM_agree {γ τ : Type} {Q : α → γ → Prop} {R : β → τ → Prop} {f : α → Except ε β}
    {g : γ → Except ε τ} {xs : List α} {ys : List γ} {bs : List β} (h : xs.mapM f = .ok bs)
    (hxy : List.Forall₂ Q xs ys)
    (hfg : ∀ x y b, Q x y → f x = .ok b → ∃ c, g y = .ok c ∧ R b c) :
    ∃ cs, ys.mapM g = .ok cs ∧ List.Forall₂ R bs cs := by
  induction hxy generalizing bs with
  | nil =>
    rw [List.mapM_nil, pure_eq_ok] at h
    exact ⟨[], rfl, h ▸ .nil⟩
  | @cons x y xs ys hq _ ih =>
    simp only [List.mapM_cons, bind_eq_ok, pure_eq_ok] at h
    obtain ⟨b, hb, bs', hbs, rfl⟩ := h
    obtain ⟨c, hc, hR⟩ := hfg x y b hq hb
    obtain ⟨cs, hcs, hRs⟩ := ih hbs
    refine ⟨c :: cs, ?_, .cons hR hRs⟩
    simp only [List.mapM_cons, bind_eq_ok, pure_eq_ok]
    exact ⟨c, hc, cs, hcs, rfl⟩

theorem mapM_perm {f : α → Except ε β} {xs ys : List α} {bs : List β} (hp : xs.Perm ys)
    (h : xs.mapM f = .ok bs) : ∃ cs, ys.mapM f = .ok cs ∧ bs.Perm cs := by
  induction hp generalizing bs with
  | nil => exact ⟨bs, h, .refl _⟩
  | cons x _ ih =>
    simp only [List.mapM_cons, bind_eq_ok, pure_eq_ok] at h ⊢
    obtain ⟨b, hb, bs', hbs, rfl⟩ := h
    obtain ⟨cs, hcs, hperm⟩ := ih hbs
    exact ⟨_, ⟨b, hb, cs, hcs, rfl⟩, hperm.cons b⟩
  | swap x y xs =>
    simp only [List.mapM_cons, bind_eq_ok, pure_eq_ok] at h ⊢
    obtain ⟨b, hb, _, ⟨c, hc, bs', hbs, rfl⟩, rfl⟩ := h
    exact ⟨_, ⟨c, hc, _, ⟨b, hb, bs', hbs, rfl⟩, rfl⟩, .swap ..⟩
  | trans _ _ ih₁ ih₂ =>
    obtain ⟨cs, hcs, hperm⟩ := ih₁ h
    obtain ⟨ds, hds, hperm'⟩ := ih₂ hcs
    exact ⟨ds, hds, hperm.trans hperm'⟩

end Except
