import Mathlib.Data.List.Basic
import Mathlib.Data.Nat.Init
import Mathlib.Order.Nat

/-! Walks along a successor that may be missing, with a limit and a stop where a key repeats. -/

namespace Walk

variable {α κ : Type*} {next : α → Option α} {key : α → κ} {x y : α} {m n i j limit : Nat} {seen : List κ}

/-- The place after some steps, as long as there are successors. -/
def place (next : α → Option α) (x : α) : Nat → Option α
  | 0 => some x
  | n + 1 => (place next x n).bind next

inductive Ending
  | ended | repeated | exhausted
  deriving DecidableEq

/-- The places a walk visits, and why it stops. -/
def walk [DecidableEq κ] (next : α → Option α) (key : α → κ) : Nat → List κ → α → List α × Ending
  | 0, _, _ => ([], .exhausted)
  | limit + 1, seen, x =>
    if key x ∈ seen then ([], .repeated)
    else
      match next x with
      | none => ([x], .ended)
      | some y => (x :: (walk next key limit (key x :: seen) y).1, (walk next key limit (key x :: seen) y).2)

/-- The keys of the first places differ from each other and from those seen before. -/
def Fresh (next : α → Option α) (key : α → κ) (seen : List κ) (x : α) (n : Nat) : Prop :=
  ∀ j ≤ n, ∀ b ∈ place next x j, key b ∉ seen ∧ ∀ i < j, ∀ a ∈ place next x i, key a ≠ key b

theorem place_succ (h : next x = some y) : place next x (n + 1) = place next y n := by
  induction n with
  | zero => exact h
  | succ n ih => rw [place, ih, place]

theorem place_none (h : next x = none) : place next x (n + 1) = none := by
  induction n with
  | zero => exact h
  | succ n ih => rw [place, ih, Option.bind_none]

theorem place_isSome_of_le (hmn : m ≤ n) (h : (place next x n).isSome) : (place next x m).isSome := by
  induction n, hmn using Nat.le_induction with
  | base => exact h
  | succ n _ ih =>
    apply ih
    cases hplace : place next x n with
    | none =>
      rw [place, hplace] at h
      cases h
    | some a => rfl

theorem fresh_zero : Fresh next key seen x 0 ↔ key x ∉ seen := by
  constructor
  · intro h
    exact (h 0 le_rfl x rfl).1
  · intro h j hj b hb
    obtain rfl := Nat.le_zero.mp hj
    cases hb
    exact ⟨h, fun i hi => absurd hi (Nat.not_lt_zero i)⟩

theorem fresh_succ (h : next x = some y) : Fresh next key seen x (n + 1) ↔
    key x ∉ seen ∧ Fresh next key (key x :: seen) y n := by
  constructor
  · intro hfresh
    refine ⟨(hfresh 0 (Nat.zero_le _) x rfl).1, fun j hj b hb => ?_⟩
    obtain ⟨hseen, hbefore⟩ := hfresh (j + 1) (Nat.succ_le_succ hj) b (by rwa [place_succ h])
    refine ⟨fun hmem => ?_, fun i hi a ha => hbefore (i + 1) (Nat.succ_lt_succ hi) a (by rwa [place_succ h])⟩
    rcases List.mem_cons.mp hmem with hkey | hmem
    · exact hbefore 0 (Nat.succ_pos j) x rfl hkey.symm
    · exact hseen hmem
  · rintro ⟨hx, hfresh⟩ j hj b hb
    cases j with
    | zero =>
      cases hb
      exact ⟨hx, fun i hi => absurd hi (Nat.not_lt_zero i)⟩
    | succ j =>
      rw [place_succ h] at hb
      obtain ⟨hseen, hbefore⟩ := hfresh j (Nat.le_of_succ_le_succ hj) b hb
      rw [List.mem_cons, not_or] at hseen
      refine ⟨hseen.2, fun i hi a ha => ?_⟩
      cases i with
      | zero =>
        cases ha
        exact fun hkey => hseen.1 hkey.symm
      | succ i =>
        rw [place_succ h] at ha
        exact hbefore i (Nat.lt_of_succ_lt_succ hi) a ha

theorem Fresh.mono (h : Fresh next key seen x n) (hmn : m ≤ n) : Fresh next key seen x m :=
  fun j hj => h j (hj.trans hmn)

theorem Fresh.values (h : Fresh next key [] x n) : Fresh next id [] x n :=
  fun j hj b hb => ⟨List.not_mem_nil, fun i hi a ha heq => (h j hj b hb).2 i hi a ha (congrArg key heq)⟩

/-- A place that comes back leads to no end. -/
theorem place_isSome_of_repeat (hij : i < j) (h : place next x i = place next x j)
    (hj : (place next x j).isSome) (n : Nat) : (place next x n).isSome := by
  have hall : ∀ n, ∃ m < j, place next x n = place next x m := by
    intro n
    induction n with
    | zero => exact ⟨0, by omega, rfl⟩
    | succ n ih =>
      obtain ⟨m, hm, hplace⟩ := ih
      have hstep : place next x (n + 1) = place next x (m + 1) := by rw [place, hplace, place]
      by_cases hlast : m + 1 = j
      · exact ⟨i, hij, by rw [hstep, hlast, h]⟩
      · exact ⟨m + 1, by omega, hstep⟩
  obtain ⟨m, hm, hplace⟩ := hall n
  rw [hplace]
  exact place_isSome_of_le hm.le hj

theorem fresh_of_end (hn : (place next x n).isSome) (hend : place next x (n + 1) = none) :
    Fresh next id [] x n := by
  intro j hj b hb
  refine ⟨List.not_mem_nil, fun i hi a ha hab => ?_⟩
  have hsame : place next x i = place next x j := by
    rw [Option.mem_def] at ha hb
    rw [ha, hb]
    exact congrArg some hab
  have hlater := place_isSome_of_repeat hi hsame (place_isSome_of_le hj hn) (n + 1)
  rw [hend] at hlater
  cases hlater

theorem not_fresh_iff (hn : (place next x n).isSome) : ¬ Fresh next id [] x n ↔
    ∃ j ≤ n, ∃ i < j, place next x i = place next x j := by
  constructor
  · intro h
    by_contra hnone
    refine h fun j hj b hb => ⟨List.not_mem_nil, fun i hi a ha hab => hnone ⟨j, hj, i, hi, ?_⟩⟩
    rw [Option.mem_def] at ha hb
    rw [ha, hb]
    exact congrArg some hab
  · rintro ⟨j, hj, i, hi, hsame⟩ hfresh
    obtain ⟨b, hb⟩ := Option.isSome_iff_exists.mp (place_isSome_of_le hj hn)
    exact (hfresh j hj b hb).2 i hi b (hsame.trans hb) rfl

section Walking

variable [DecidableEq κ]

theorem walk_getElem? (hn : n < (walk next key limit seen x).1.length) :
    (walk next key limit seen x).1[n]? = place next x n := by
  induction limit generalizing seen x n with
  | zero => cases hn
  | succ limit ih =>
    rw [walk] at hn ⊢
    split at hn
    · cases hn
    · next hseen =>
      rw [if_neg hseen]
      cases hnext : next x with
      | none =>
        rw [hnext] at hn
        obtain rfl := Nat.lt_one_iff.mp hn
        rfl
      | some y =>
        rw [hnext] at hn
        cases n with
        | zero => rfl
        | succ n =>
          rw [place_succ hnext]
          exact ih (Nat.lt_of_succ_lt_succ hn)

theorem lt_length_iff : n < (walk next key limit seen x).1.length ↔
    n < limit ∧ (place next x n).isSome ∧ Fresh next key seen x n := by
  induction limit generalizing seen x n with
  | zero => simp [walk]
  | succ limit ih =>
    rw [walk]
    split
    · next hseen =>
      refine iff_of_false (Nat.not_lt_zero n) fun h => ?_
      exact fresh_zero.mp (h.2.2.mono (Nat.zero_le n)) hseen
    · next hseen =>
      cases n with
      | zero =>
        have hzero : 0 < limit + 1 ∧ (place next x 0).isSome ∧ Fresh next key seen x 0 :=
          ⟨Nat.succ_pos limit, rfl, fresh_zero.mpr hseen⟩
        cases next x <;> exact iff_of_true (Nat.succ_pos _) hzero
      | succ n =>
        cases hnext : next x with
        | none =>
          rw [place_none hnext]
          simp
        | some y =>
          simp only [List.length_cons, Nat.add_lt_add_iff_right]
          rw [ih, place_succ hnext, fresh_succ hnext]
          simp [hseen]

theorem ended_iff : (walk next key limit seen x).2 = .ended ↔ ∃ n < limit,
    (place next x n).isSome ∧ place next x (n + 1) = none ∧ Fresh next key seen x n := by
  induction limit generalizing seen x with
  | zero => simp [walk]
  | succ limit ih =>
    rw [walk]
    split
    · next hseen =>
      refine iff_of_false (fun h => nomatch h) ?_
      rintro ⟨n, -, -, -, hfresh⟩
      exact fresh_zero.mp (hfresh.mono (Nat.zero_le n)) hseen
    · next hseen =>
      cases hnext : next x with
      | none =>
        exact iff_of_true rfl ⟨0, Nat.succ_pos limit, rfl, place_none hnext, fresh_zero.mpr hseen⟩
      | some y =>
        rw [ih]
        constructor
        · rintro ⟨n, hn, hplace, hend, hfresh⟩
          refine ⟨n + 1, Nat.succ_lt_succ hn, ?_⟩
          rw [place_succ hnext, place_succ hnext, fresh_succ hnext]
          exact ⟨hplace, hend, hseen, hfresh⟩
        · rintro ⟨n, hn, hplace, hend, hfresh⟩
          cases n with
          | zero =>
            rw [place_succ hnext] at hend
            cases hend
          | succ n =>
            rw [place_succ hnext] at hplace hend
            exact ⟨n, Nat.lt_of_succ_lt_succ hn, hplace, hend, ((fresh_succ hnext).mp hfresh).2⟩

theorem repeated_iff : (walk next key limit seen x).2 = .repeated ↔ ∃ n < limit,
    (place next x n).isSome ∧ ¬ Fresh next key seen x n := by
  induction limit generalizing seen x with
  | zero => simp [walk]
  | succ limit ih =>
    rw [walk]
    split
    · next hseen =>
      exact iff_of_true rfl ⟨0, Nat.succ_pos limit, rfl, fun h => fresh_zero.mp h hseen⟩
    · next hseen =>
      cases hnext : next x with
      | none =>
        refine iff_of_false (fun h => nomatch h) ?_
        rintro ⟨n, -, hplace, hfresh⟩
        cases n with
        | zero => exact hfresh (fresh_zero.mpr hseen)
        | succ n =>
          rw [place_none hnext] at hplace
          cases hplace
      | some y =>
        rw [ih]
        constructor
        · rintro ⟨n, hn, hplace, hfresh⟩
          refine ⟨n + 1, Nat.succ_lt_succ hn, ?_⟩
          rw [place_succ hnext, fresh_succ hnext]
          exact ⟨hplace, fun h => hfresh h.2⟩
        · rintro ⟨n, hn, hplace, hfresh⟩
          cases n with
          | zero => exact (hfresh (fresh_zero.mpr hseen)).elim
          | succ n =>
            rw [place_succ hnext] at hplace
            exact ⟨n, Nat.lt_of_succ_lt_succ hn, hplace, fun h => hfresh ((fresh_succ hnext).mpr ⟨hseen, h⟩)⟩

theorem length_le : (walk next key limit seen x).1.length ≤ limit := by
  by_contra h
  have hlast := (lt_length_iff.mp (Nat.lt_of_not_le h)).1
  exact Nat.lt_irrefl _ hlast

end Walking

end Walk
