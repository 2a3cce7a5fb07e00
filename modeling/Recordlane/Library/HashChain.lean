import Mathlib.Data.List.Induction
import Mathlib.Data.List.Nodup
import Mathlib.Data.List.Pairwise

/-! Chains of entries, each of which names the key of the entry before it. -/
namespace HashChain

variable {α κ : Type*} {prev : α → Option κ} {key : α → κ} {x y : α} {xs ys : List α}

/-- Every entry names the key of the entry directly before it, and the first one names none. -/
def Linked (prev : α → Option κ) (key : α → κ) (xs : List α) : Prop :=
  ∀ before x after, xs = before ++ x :: after → prev x = before.getLast?.map key

theorem linked_nil : Linked prev key [] := by
  intro before x after h
  simp at h

theorem linked_concat : Linked prev key (xs ++ [x]) ↔
    Linked prev key xs ∧ prev x = xs.getLast?.map key := by
  constructor
  · intro h
    refine ⟨fun before y after hy => h before y (after ++ [x]) ?_, h xs x [] rfl⟩
    rw [hy, List.append_assoc, List.cons_append]
  · rintro ⟨h, hx⟩ before y after hy
    rcases List.eq_nil_or_concat after with rfl | ⟨after, z, rfl⟩
    · obtain ⟨rfl, hxy⟩ := List.append_inj' hy rfl
      cases hxy
      exact hx
    · rw [List.concat_eq_append, ← List.cons_append, ← List.append_assoc] at hy
      obtain ⟨rfl, -⟩ := List.append_inj' hy rfl
      exact h before y after rfl

theorem Linked.left (h : Linked prev key (xs ++ ys)) : Linked prev key xs := by
  intro before x after hx
  refine h before x (after ++ ys) ?_
  rw [hx, List.append_assoc, List.cons_append]

theorem Linked.getElem_zero (h : Linked prev key xs) (hlen : 0 < xs.length) : prev xs[0] = none := by
  have hsplit : xs = [] ++ xs[0] :: xs.drop 1 := by
    rw [List.nil_append, ← List.drop_eq_getElem_cons hlen, List.drop_zero]
  exact h [] _ _ hsplit

theorem Linked.getElem_succ (h : Linked prev key xs) {i : ℕ} (hi : i + 1 < xs.length) :
    prev xs[i + 1] = some (key xs[i]) := by
  have hsplit : xs = xs.take (i + 1) ++ xs[i + 1] :: xs.drop (i + 2) := by
    rw [← List.drop_eq_getElem_cons hi, List.take_append_drop]
  rw [h _ _ _ hsplit, List.getLast?_take]
  simp [List.getElem?_eq_getElem (Nat.lt_of_succ_lt hi)]

/-- As long as equal keys come with equal predecessors, no two entries of a chain share theirs. -/
theorem Linked.nodup (h : Linked prev key xs)
    (hfree : ∀ x ∈ xs, ∀ y ∈ xs, key x = key y → prev x = prev y) : (xs.map prev).Nodup := by
  have hne : ∀ i j (hi : i < xs.length) (hj : j < xs.length), i < j → prev xs[i] ≠ prev xs[j] := by
    intro i
    induction i with
    | zero =>
      intro j hi hj hij heq
      cases j with
      | zero => omega
      | succ j =>
        rw [h.getElem_zero hi, h.getElem_succ hj] at heq
        cases heq
    | succ i ih =>
      intro j hi hj hij heq
      cases j with
      | zero => omega
      | succ j =>
        rw [h.getElem_succ hi, h.getElem_succ hj] at heq
        exact ih j (Nat.lt_of_succ_lt hi) (Nat.lt_of_succ_lt hj) (Nat.lt_of_succ_lt_succ hij)
          (hfree _ (List.getElem_mem _) _ (List.getElem_mem _) (Option.some.inj heq))
  rw [List.Nodup, List.pairwise_map, List.pairwise_iff_getElem]
  exact hne

/-- As long as keys tell entries and their predecessors apart, a chain is known by its last key. -/
theorem Linked.map_eq {β : Type*} {f : α → β} (hxs : Linked prev key (xs ++ [x]))
    (hys : Linked prev key (ys ++ [y]))
    (hfree : ∀ a ∈ xs ++ [x], ∀ b ∈ ys ++ [y], key a = key b → f a = f b ∧ prev a = prev b)
    (h : key x = key y) : (xs ++ [x]).map f = (ys ++ [y]).map f := by
  obtain ⟨hxy, hprev⟩ := hfree x (by simp) y (by simp) h
  have hxs' := linked_concat.mp hxs
  have hys' := linked_concat.mp hys
  rw [hxs'.2, hys'.2] at hprev
  have hinit : xs.map f = ys.map f := by
    induction xs using List.reverseRecOn generalizing ys x y with
    | nil =>
      cases ys using List.reverseRecOn with
      | nil => rfl
      | append_singleton ys y' => simp at hprev
    | append_singleton xs x' ih =>
      cases ys using List.reverseRecOn with
      | nil => simp at hprev
      | append_singleton ys y' =>
        have hkey : key x' = key y' := by simpa using hprev
        have hfree' : ∀ a ∈ xs ++ [x'], ∀ b ∈ ys ++ [y'], key a = key b → f a = f b ∧ prev a = prev b :=
          fun a ha b hb => hfree a (List.mem_append_left _ ha) b (List.mem_append_left _ hb)
        obtain ⟨hxy', hprev'⟩ := hfree' x' (by simp) y' (by simp) hkey
        have hxs'' := linked_concat.mp hxs'.1
        have hys'' := linked_concat.mp hys'.1
        rw [hxs''.2, hys''.2] at hprev'
        rw [List.map_append, List.map_append, ih hxs'.1 hys'.1 hfree' hkey hxy' hprev' hxs'' hys'']
        simp [hxy']
  rw [List.map_append, List.map_append, hinit]
  simp [hxy]

end HashChain
