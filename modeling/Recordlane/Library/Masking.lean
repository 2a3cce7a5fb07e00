import Mathlib.Data.List.Basic

/-! Masks that leave the secrets out of a value, and views that may show them. -/

/-- Two values of one mask look the same if and only if they have the same secrets. The mask tells how
many secrets there are. -/
structure Reveals {α β γ δ : Type*} (mask : α → β) (view : α → γ) (secrets : α → List δ) : Prop where
  length {a b : α} : mask a = mask b → (secrets a).length = (secrets b).length
  view_eq_iff {a b : α} : mask a = mask b → (view a = view b ↔ secrets a = secrets b)

namespace Reveals

variable {α β γ δ α' β' γ' κ : Type*} {mask : α → β} {view : α → γ} {secrets : α → List δ}

/-- A finer mask, and a view that tells values of one mask apart just as well. -/
theorem of_imp {mask' : α → β'} {view' : α → γ'} (h : Reveals mask view secrets)
    (hmask : ∀ a b, mask' a = mask' b → mask a = mask b)
    (hview : ∀ a b, mask' a = mask' b → (view' a = view' b ↔ view a = view b)) :
    Reveals mask' view' secrets where
  length := fun hab => h.length (hmask _ _ hab)
  view_eq_iff := fun hab => (hview _ _ hab).trans (h.view_eq_iff (hmask _ _ hab))

theorem comap (h : Reveals mask view secrets) (f : α' → α) :
    Reveals (fun a => mask (f a)) (fun a => view (f a)) fun a => secrets (f a) where
  length := h.length
  view_eq_iff := h.view_eq_iff

theorem prod {mask' : α → β'} {view' : α → γ'} {secrets' : α → List δ}
    (h : Reveals mask view secrets) (h' : Reveals mask' view' secrets') :
    Reveals (fun a => (mask a, mask' a)) (fun a => (view a, view' a))
      fun a => secrets a ++ secrets' a where
  length := by
    intro a b hab
    obtain ⟨hm, hm'⟩ := Prod.mk.inj hab
    rw [List.length_append, List.length_append, h.length hm, h'.length hm']
  view_eq_iff := by
    intro a b hab
    obtain ⟨hm, hm'⟩ := Prod.mk.inj hab
    rw [Prod.mk.injEq, h.view_eq_iff hm, h'.view_eq_iff hm']
    constructor
    · rintro ⟨hs, hs'⟩
      rw [hs, hs']
    · intro hs
      exact List.append_inj hs (h.length hm)

/-- How a value is masked and shown may depend on something the mask leaves open. -/
theorem keyed {mask : κ → α → β} {view : κ → α → γ} {secrets : κ → α → List δ} (key : α → κ)
    (hkey : ∀ a b, mask (key a) a = mask (key b) b → key a = key b)
    (h : ∀ k, Reveals (mask k) (view k) (secrets k)) :
    Reveals (fun a => mask (key a) a) (fun a => view (key a) a) fun a => secrets (key a) a where
  length := by
    intro a b hab
    have hk := hkey a b hab
    rw [hk] at hab ⊢
    exact (h (key b)).length hab
  view_eq_iff := by
    intro a b hab
    have hk := hkey a b hab
    rw [hk] at hab ⊢
    exact (h (key b)).view_eq_iff hab

/-- A value that is blanked out unless it is open, and shown as it is. -/
theorem guarded {isOpen : α → Bool} {blank : α → α} {parts : α → List δ}
    (hview : Function.Injective view) (hopen : ∀ a, isOpen (blank a) = isOpen a)
    (hlength : ∀ a b, (parts a).length = (parts b).length)
    (hext : ∀ a b, blank a = blank b → parts a = parts b → a = b) :
    Reveals (fun a => if isOpen a then a else blank a) view
      fun a => if isOpen a then [] else parts a := by
  have hmask : ∀ a b, (if isOpen a then a else blank a) = (if isOpen b then b else blank b) →
      isOpen a = true ∧ isOpen b = true ∧ a = b ∨
        isOpen a = false ∧ isOpen b = false ∧ blank a = blank b := by
    intro a b hab
    have hsame : isOpen a = isOpen b := by
      have h := congrArg isOpen hab
      split at h <;> split at h <;> simpa [hopen] using h
    cases hb : isOpen b with
    | true => exact .inl ⟨hsame.trans hb, rfl, by simpa [hsame, hb] using hab⟩
    | false => exact .inr ⟨hsame.trans hb, rfl, by simpa [hsame, hb] using hab⟩
  constructor
  · intro a b hab
    rcases hmask a b hab with ⟨ha, hb, -⟩ | ⟨ha, hb, -⟩
    · simp [ha, hb]
    · simpa [ha, hb] using hlength a b
  · intro a b hab
    rcases hmask a b hab with ⟨-, -, rfl⟩ | ⟨ha, hb, hblank⟩
    · simp
    · rw [ha, hb, hview.eq_iff]
      constructor
      · rintro rfl
        rfl
      · intro hparts
        exact hext a b hblank (by simpa using hparts)

/-- Of a list only what is open is left, and the rest is a secret, with the places it has in the list. -/
theorem sifted {isOpen : α → Bool} {face : α → δ} {blank : δ} {pack : List δ → δ}
    (hview : Function.Injective view) (hface : Function.Injective face) (hblank : ∀ a, face a ≠ blank)
    (hpack : Function.Injective pack) :
    Reveals (List.filter isOpen) (List.map view)
      fun xs => [pack (xs.map fun a => if isOpen a then blank else face a)] where
  length := fun _ => rfl
  view_eq_iff := by
    intro xs ys hxs
    rw [(List.map_injective_iff.mpr hview).eq_iff, List.singleton_inj, hpack.eq_iff]
    refine ⟨fun h => by rw [h], fun h => ?_⟩
    induction xs generalizing ys with
    | nil => exact (List.map_eq_nil_iff.mp h.symm).symm
    | cons x xs ih =>
      cases ys with
      | nil => cases h
      | cons y ys =>
        rw [List.map_cons, List.map_cons, List.cons.injEq] at h
        obtain ⟨hhead, hrest⟩ := h
        rw [List.filter_cons, List.filter_cons] at hxs
        cases hx : isOpen x <;> cases hy : isOpen y <;> rw [hx, hy] at hhead <;>
          simp only [hx, hy, Bool.false_eq_true, if_false, if_true] at hhead hxs
        · rw [hface hhead, ih hxs hrest]
        · exact (hblank x hhead).elim
        · exact (hblank y hhead.symm).elim
        · rw [(List.cons.inj hxs).1, ih (List.cons.inj hxs).2 hrest]

/-- A list of values has the secrets of each. -/
theorem list (h : Reveals mask view secrets) :
    Reveals (List.map mask) (List.map view) fun xs => xs.flatMap secrets := by
  have hall : ∀ xs ys : List α, xs.map mask = ys.map mask →
      (xs.flatMap secrets).length = (ys.flatMap secrets).length ∧
        (xs.map view = ys.map view ↔ xs.flatMap secrets = ys.flatMap secrets) := by
    intro xs
    induction xs with
    | nil =>
      intro ys hys
      rw [List.map_eq_nil_iff.mp hys.symm]
      simp
    | cons x xs ih =>
      intro ys hys
      cases ys with
      | nil => cases hys
      | cons y ys =>
        obtain ⟨hxy, hrest⟩ := List.cons.inj hys
        obtain ⟨hlength, hiff⟩ := ih ys hrest
        have hhead := h.length hxy
        constructor
        · simp only [List.flatMap_cons, List.length_append, hhead, hlength]
        · rw [List.map_cons, List.map_cons, List.cons.injEq, h.view_eq_iff hxy, hiff,
            List.flatMap_cons, List.flatMap_cons]
          constructor
          · rintro ⟨hs, hs'⟩
            rw [hs, hs']
          · intro hs
            exact List.append_inj hs hhead
  exact ⟨fun hab => (hall _ _ hab).1, fun hab => (hall _ _ hab).2⟩

end Reveals

section Selection

variable {α : Type*} {mask : α → α} {p : α → Bool} {xs ys : List α}

theorem map_filter_mask (hp : ∀ x, p (mask x) = p x) (h : xs.map mask = ys.map mask) :
    (xs.filter p).map mask = (ys.filter p).map mask := by
  have hfilter : ∀ zs : List α, (zs.filter p).map mask = (zs.map mask).filter p := by
    intro zs
    rw [List.filter_map]
    exact congrArg _ (List.filter_congr fun x _ => (hp x).symm)
  rw [hfilter, h, hfilter]

theorem map_find_mask (hp : ∀ x, p (mask x) = p x) (h : xs.map mask = ys.map mask) :
    (xs.find? p).map mask = (ys.find? p).map mask := by
  have hfind : ∀ zs : List α, (zs.find? p).map mask = (zs.map mask).find? p := by
    intro zs
    rw [List.find?_map]
    exact congrArg _ (congrArg (List.find? · zs) (funext fun x => (hp x).symm))
  rw [hfind, h, hfind]

end Selection
