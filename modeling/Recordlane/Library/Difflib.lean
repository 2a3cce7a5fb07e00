import Mathlib.Algebra.Order.Field.Rat
import Mathlib.Algebra.Order.Field.Basic
import Mathlib.Tactic.Linarith
import Mathlib.Tactic.NormNum

/-! `difflib.SequenceMatcher` without a junk function, and the ratio of similarity it finds. -/
namespace Difflib

variable {α : Type*} [DecidableEq α]

/-- A block that two lists share: where it starts in each of them, and its size. -/
structure Match where
  a : Nat
  b : Nat
  size : Nat
  deriving DecidableEq

/-- `autojunk`: the elements that a long list has too often. -/
def popular (b : List α) (x : α) : Bool := 200 ≤ b.length && b.length / 100 + 1 < b.count x

/-- `newj2len`: the sizes of the blocks that end with `x` and with each element of `b`, from those
that end one element before. -/
def nextRow (junk : α → Bool) (x : α) : List α → List Nat → List Nat
  | y :: b, k :: before =>
    (if y = x && !junk y then k + 1 else 0) :: nextRow junk x b before
  | _, _ => []

/-- The largest block once those that end with the `i`-th element are known; an earlier one stays. -/
def largest (i : Nat) : Nat → List Nat → Match → Match
  | _, [], best => best
  | j, k :: row, best =>
    largest i (j + 1) row (if best.size < k then ⟨i + 1 - k, j + 1 - k, k⟩ else best)

/-- The loop over the first list. -/
def scan (junk : α → Bool) (b : List α) : Nat → List α → List Nat → Match → Match
  | _, [], _, best => best
  | i, x :: a, row, best =>
    let row := nextRow junk x b (0 :: row)
    scan junk b (i + 1) a row (largest i 0 row best)

/-- How far two lists go together. -/
def commonPrefix : List α → List α → Nat
  | x :: xs, y :: ys => if x = y then commonPrefix xs ys + 1 else 0
  | _, _ => 0

/-- `find_longest_match`: the largest block, extended at both ends. -/
def findLongestMatch (junk : α → Bool) (a b : List α) : Match :=
  let best := scan junk b 0 a (List.replicate b.length 0) ⟨0, 0, 0⟩
  let back := commonPrefix (a.take best.a).reverse (b.take best.b).reverse
  let onward := commonPrefix (a.drop (best.a + best.size)) (b.drop (best.b + best.size))
  ⟨best.a - back, best.b - back, best.size + back + onward⟩

/-- The sizes of the matching blocks together: the largest one, then those on either side of it. -/
def matched (junk : α → Bool) : Nat → List α → List α → Nat
  | 0, _, _ => 0
  | n + 1, a, b =>
    let m := findLongestMatch junk a b
    if m.size = 0 then 0
    else m.size + matched junk n (a.take m.a) (b.take m.b) +
      matched junk n (a.drop (m.a + m.size)) (b.drop (m.b + m.size))

/-- `SequenceMatcher(None, a, b).ratio()`. -/
def ratio (a b : List α) : ℚ :=
  if a.length + b.length = 0 then 1
  else 2 * matched (popular b) a.length a b / (a.length + b.length : Nat)

/-- The block lies within lists of these lengths. -/
def Match.Within (m : Match) (la lb : Nat) : Prop := m.a + m.size ≤ la ∧ m.b + m.size ≤ lb

variable {junk : α → Bool} {a b : List α} {x : α} {row before : List Nat} {best : Match} {i j n lb : Nat}

/-- The sizes in a row do not go beyond the starts of the lists. -/
def Bounded (i j : Nat) (row : List Nat) : Prop := ∀ p k, row[p]? = some k → k ≤ j + p ∧ k ≤ i

theorem Bounded.tail {k : Nat} (h : Bounded i j (k :: row)) : Bounded i (j + 1) row := by
  intro p q hq
  have hp := h (p + 1) q hq
  omega

theorem nextRow_bounded (h : Bounded i j before) : Bounded (i + 1) (j + 1) (nextRow junk x b before) := by
  induction b generalizing before j with
  | nil =>
    intro p k hk
    rw [nextRow] at hk
    · cases hk
    · intro y ys k' ks hnil
      cases hnil
  | cons y b ih =>
    cases before with
    | nil =>
      intro p k hk
      rw [nextRow] at hk
      · cases hk
      · intro y' ys k' ks _ hnil
        cases hnil
    | cons first before =>
      intro p k hk
      rw [nextRow] at hk
      cases p with
      | zero =>
        have hfirst := h 0 first rfl
        rw [List.getElem?_cons_zero, Option.some.injEq] at hk
        split at hk <;> omega
      | succ p =>
        have hrest := ih h.tail p k hk
        omega

theorem nextRow_length : (nextRow junk x b before).length ≤ b.length := by
  induction b generalizing before with
  | nil => rw [nextRow.eq_def]; exact le_rfl
  | cons y b ih =>
    cases before with
    | nil => exact Nat.zero_le _
    | cons k before => exact Nat.succ_le_succ ih

theorem largest_within (h : Bounded (i + 1) (j + 1) row) (hlen : j + row.length ≤ lb)
    (hb : best.Within (i + 1) lb) : (largest i j row best).Within (i + 1) lb := by
  induction row generalizing j best with
  | nil => exact hb
  | cons k row ih =>
    rw [largest]
    have hk := h 0 k rfl
    rw [List.length_cons] at hlen
    refine ih h.tail (by omega) ?_
    split
    · constructor <;> simp only <;> omega
    · exact hb

theorem scan_within (h : Bounded i 1 row) (hb : best.Within i b.length) :
    (scan junk b i a row best).Within (i + a.length) b.length := by
  induction a generalizing i row best with
  | nil => exact hb
  | cons x a ih =>
    rw [scan, List.length_cons]
    have hshifted : Bounded i 0 (0 :: row) := by
      intro p k hk
      cases p with
      | zero =>
        rw [List.getElem?_cons_zero, Option.some.injEq] at hk
        omega
      | succ p =>
        have hp := h p k hk
        omega
    have hnext : Bounded (i + 1) (0 + 1) (nextRow junk x b (0 :: row)) := nextRow_bounded hshifted
    have hlength : (nextRow junk x b (0 :: row)).length ≤ b.length := nextRow_length
    have hbest : best.Within (i + 1) b.length := ⟨hb.1.trans (Nat.le_succ _), hb.2⟩
    have hrest := ih hnext (largest_within hnext (by omega) hbest)
    rwa [Nat.add_right_comm, Nat.add_assoc] at hrest

theorem commonPrefix_le (xs ys : List α) :
    commonPrefix xs ys ≤ xs.length ∧ commonPrefix xs ys ≤ ys.length := by
  induction xs generalizing ys with
  | nil =>
    rw [commonPrefix]
    · exact ⟨Nat.zero_le _, Nat.zero_le _⟩
    · intro x xs y ys' hnil
      cases hnil
  | cons x xs ih =>
    cases ys with
    | nil => exact ⟨Nat.zero_le _, Nat.zero_le _⟩
    | cons y ys =>
      rw [commonPrefix, List.length_cons, List.length_cons]
      have hrest := ih ys
      split <;> omega

theorem findLongestMatch_within (junk : α → Bool) (a b : List α) :
    (findLongestMatch junk a b).Within a.length b.length := by
  have hzero : Bounded 0 1 (List.replicate b.length 0) := by
    intro p k hk
    rw [List.getElem?_replicate] at hk
    split at hk
    · cases hk
      omega
    · cases hk
  have hbest : (scan junk b 0 a (List.replicate b.length 0) ⟨0, 0, 0⟩).Within (0 + a.length) b.length :=
    scan_within hzero ⟨le_rfl, Nat.zero_le _⟩
  unfold findLongestMatch
  dsimp only
  generalize scan junk b 0 a (List.replicate b.length 0) ⟨0, 0, 0⟩ = best at hbest
  obtain ⟨ha, hb⟩ := hbest
  have hback := commonPrefix_le (a.take best.a).reverse (b.take best.b).reverse
  have honward := commonPrefix_le (a.drop (best.a + best.size)) (b.drop (best.b + best.size))
  simp only [List.length_reverse, List.length_take, List.length_drop] at hback honward
  constructor <;> simp only <;> omega

/-- The matching blocks do not overlap. -/
theorem matched_le (junk : α → Bool) (n : Nat) (a b : List α) :
    matched junk n a b ≤ a.length ∧ matched junk n a b ≤ b.length := by
  induction n generalizing a b with
  | zero => exact ⟨Nat.zero_le _, Nat.zero_le _⟩
  | succ n ih =>
    rw [matched]
    obtain ⟨ha, hb⟩ := findLongestMatch_within junk a b
    generalize findLongestMatch junk a b = m at ha hb
    have hbefore := ih (a.take m.a) (b.take m.b)
    have hafter := ih (a.drop (m.a + m.size)) (b.drop (m.b + m.size))
    simp only [List.length_take, List.length_drop] at hbefore hafter
    split <;> omega

theorem matched_empty {a b : List α} (n : Nat) (h : a.length ≤ 0) : matched junk n a b = 0 :=
  Nat.le_zero.mp ((matched_le junk n a b).1.trans h)

/-- The recursion goes no deeper than the first list is long. -/
theorem matched_enough {n m : Nat} {a b : List α} (hn : a.length ≤ n) (hm : a.length ≤ m) :
    matched junk n a b = matched junk m a b := by
  induction n generalizing m a b with
  | zero => rw [matched_empty 0 hn, matched_empty m hn]
  | succ n ih =>
    cases m with
    | zero => rw [matched_empty (n + 1) hm, matched_empty 0 hm]
    | succ m =>
      rw [matched, matched]
      obtain ⟨ha, hb⟩ := findLongestMatch_within junk a b
      generalize findLongestMatch junk a b = found at ha hb
      by_cases hsize : found.size = 0
      · rw [if_pos hsize, if_pos hsize]
      · have htake : (a.take found.a).length = found.a := List.length_take_of_le (by omega)
        have hdrop : (a.drop (found.a + found.size)).length = a.length - (found.a + found.size) :=
          List.length_drop
        rw [if_neg hsize, if_neg hsize, ih (m := m) (by omega) (by omega),
          ih (m := m) (by omega) (by omega)]

theorem ratio_nonneg (a b : List α) : 0 ≤ ratio a b := by
  unfold ratio
  split
  · exact zero_le_one
  · exact div_nonneg (mul_nonneg zero_le_two (Nat.cast_nonneg _)) (Nat.cast_nonneg _)

theorem ratio_le_one (a b : List α) : ratio a b ≤ 1 := by
  unfold ratio
  split
  · exact le_rfl
  · next hlength =>
    obtain ⟨ha, hb⟩ := matched_le (popular b) a.length a b
    have hpos : (0 : ℚ) < (a.length + b.length : Nat) := Nat.cast_pos.mpr (Nat.pos_of_ne_zero hlength)
    refine (div_le_one hpos).mpr ?_
    have hsum : 2 * matched (popular b) a.length a b ≤ a.length + b.length := by omega
    exact_mod_cast hsum

end Difflib
