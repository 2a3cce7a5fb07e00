import Mathlib.Data.List.Sort
import Mathlib.Order.Defs.LinearOrder

/-! Pages of a table in the order of its keys, each starting after the last key of the one before. The
table may be another one from page to page. -/
namespace Keyset

variable {α κ : Type} [LinearOrder κ] {key : α → κ} {size : Nat} {cursor : Option κ} {c k : κ} {rows : List α}
  {tables : List (List α)} {found : List α}

/-- The rows after the cursor, in the order of their keys. -/
def past (key : α → κ) (cursor : Option κ) (rows : List α) : List α :=
  (rows.filter fun x => decide (∀ c ∈ cursor, c < key x)).insertionSort fun x y => key x ≤ key y

structure Page (α κ : Type) where
  items : List α
  next : Option κ

/-- A page of so many rows, and the key that the next one continues after, if there is a row left. -/
def page (key : α → κ) (size : Nat) (cursor : Option κ) (rows : List α) : Page α κ :=
  let found := (past key cursor rows).take (size + 1)
  if size < found.length then ⟨found.take size, (found.take size).getLast?.map key⟩ else ⟨found, none⟩

/-- What the pages hold together, from a cursor to the one that continues after nothing. -/
inductive Follows (key : α → κ) (size : Nat) : Option κ → List (List α) → List α → Prop
  | last {cursor : Option κ} {rows : List α} : (page key size cursor rows).next = none →
      Follows key size cursor [rows] (page key size cursor rows).items
  | more {cursor : Option κ} {rows : List α} {c : κ} {tables : List (List α)} {found : List α} :
      (page key size cursor rows).next = some c →
      Follows key size (some c) tables found →
      Follows key size cursor (rows :: tables) ((page key size cursor rows).items ++ found)

theorem mem_past {x : α} : x ∈ past key cursor rows ↔ x ∈ rows ∧ ∀ c ∈ cursor, c < key x := by
  rw [past, List.mem_insertionSort, List.mem_filter, decide_eq_true_iff]

/-- With distinct keys the rows after the cursor increase strictly. -/
theorem past_increasing (h : (rows.map key).Nodup) :
    ((past key cursor rows).map key).Pairwise (· < ·) := by
  have htotal : Std.Total fun x y : α => key x ≤ key y := ⟨fun x y => le_total (key x) (key y)⟩
  have htrans : IsTrans α fun x y => key x ≤ key y := ⟨fun _ _ _ => le_trans⟩
  have hsorted : ((past key cursor rows).map key).Pairwise (· ≤ ·) := by
    rw [List.pairwise_map]
    exact List.pairwise_insertionSort _ _
  have hnodup : ((past key cursor rows).map key).Nodup := by
    have hperm := (List.perm_insertionSort (fun x y => key x ≤ key y)
      (rows.filter fun x => decide (∀ c ∈ cursor, c < key x))).map key
    exact hperm.nodup_iff.mpr (h.sublist (List.filter_sublist.map key))
  exact (hsorted.and hnodup).imp fun ⟨hle, hne⟩ => lt_of_le_of_ne hle hne

/-- The last page holds all that is left. -/
theorem page_last (h : (page key size cursor rows).next = none) (hsize : 0 < size) :
    (page key size cursor rows).items = past key cursor rows := by
  unfold page at h ⊢
  dsimp only at h ⊢
  split at h
  · next hmore =>
    rw [Option.map_eq_none_iff, List.getLast?_eq_none_iff] at h
    have hempty := congrArg List.length h
    rw [List.length_take, List.length_nil] at hempty
    omega
  · next hall =>
    rw [if_neg hall]
    rw [List.length_take] at hall
    exact List.take_of_length_le (by omega)

/-- Any other page holds the rows up to the key that the next one continues after. -/
theorem page_more (h : (page key size cursor rows).next = some c) : ∃ rest,
    past key cursor rows = (page key size cursor rows).items ++ rest ∧
      ∃ x ∈ (page key size cursor rows).items.getLast?, key x = c := by
  unfold page at h ⊢
  dsimp only at h ⊢
  split at h
  · next hmore =>
    rw [if_pos hmore]
    dsimp only
    obtain ⟨x, hx, hkey⟩ := Option.map_eq_some_iff.mp h
    refine ⟨(past key cursor rows).drop size, ?_, x, hx, hkey⟩
    rw [List.take_take, Nat.min_eq_left (Nat.le_succ size), List.take_append_drop]
  · cases h

/-- A page lies between its cursor and the next one. -/
theorem page_between (hkeys : (rows.map key).Nodup) (h : (page key size cursor rows).next = some c) :
    (∀ x ∈ (page key size cursor rows).items, key x ≤ c) ∧ (∀ d ∈ cursor, d < c) ∧
      ∀ x ∈ past key cursor rows, key x ≤ c → x ∈ (page key size cursor rows).items := by
  obtain ⟨rest, hsplit, x, hx, rfl⟩ := page_more h
  have hincreasing : ((past key cursor rows).map key).Pairwise (· < ·) := past_increasing hkeys
  rw [hsplit, List.map_append, List.pairwise_append] at hincreasing
  obtain ⟨hitems, -, hacross⟩ := hincreasing
  have hmem := List.mem_of_getLast? hx
  refine ⟨fun y hy => ?_, ?_, fun y hy hle => ?_⟩
  · obtain ⟨front, hfront⟩ := List.getLast?_eq_some_iff.mp hx
    rw [hfront] at hy hitems
    rw [List.map_append, List.pairwise_append] at hitems
    rcases List.mem_append.mp hy with hy | hy
    · exact (hitems.2.2 _ (List.mem_map_of_mem hy) _ (List.mem_map_of_mem (List.mem_singleton_self x))).le
    · rw [List.mem_singleton.mp hy]
  · exact (mem_past.mp (hsplit ▸ List.mem_append_left rest hmem)).2
  · rw [hsplit] at hy
    refine (List.mem_append.mp hy).resolve_right fun hrest => ?_
    exact absurd hle (not_le.mpr (hacross _ (List.mem_map_of_mem hmem) _ (List.mem_map_of_mem hrest)))

/-- Each page leaves fewer rows of its table to come. -/
theorem past_shorter (hkeys : (rows.map key).Nodup) (h : (page key size cursor rows).next = some c) :
    (past key (some c) rows).length < (past key cursor rows).length := by
  obtain ⟨rest, hsplit, x, hx, hkey⟩ := page_more h
  obtain ⟨-, habove, -⟩ := page_between hkeys h
  have hlater : rows.filter (fun x => decide (∀ d ∈ some c, d < key x)) =
      (rows.filter fun x => decide (∀ d ∈ cursor, d < key x)).filter fun x => decide (c < key x) := by
    rw [List.filter_filter]
    refine List.filter_congr fun y _ => ?_
    rw [Bool.eq_iff_iff, Bool.and_eq_true, decide_eq_true_iff, decide_eq_true_iff, decide_eq_true_iff]
    exact ⟨fun hy => ⟨hy c rfl, fun d hd => (habove d hd).trans (hy c rfl)⟩,
      fun hy d hd => Option.some.inj hd ▸ hy.1⟩
  have hmem : x ∈ past key cursor rows := hsplit ▸ List.mem_append_left rest (List.mem_of_getLast? hx)
  rw [past, past, List.length_insertionSort, List.length_insertionSort, hlater,
    List.length_filter_lt_length_iff_exists]
  refine ⟨x, List.mem_filter.mpr ⟨(mem_past.mp hmem).1, decide_eq_true (mem_past.mp hmem).2⟩, ?_⟩
  rw [decide_eq_true_iff, hkey]
  exact lt_irrefl c

theorem page_past {x : α} (h : x ∈ (page key size cursor rows).items) : x ∈ past key cursor rows := by
  unfold page at h
  dsimp only at h
  split at h
  · exact List.mem_of_mem_take (List.mem_of_mem_take h)
  · exact List.mem_of_mem_take h

/-- No key comes twice: the pages increase strictly, through whatever tables. -/
theorem Follows.increasing (h : Follows key size cursor tables found)
    (hkeys : ∀ rows ∈ tables, (rows.map key).Nodup) :
    (found.map key).Pairwise (· < ·) ∧ ∀ x ∈ found, ∀ d ∈ cursor, d < key x := by
  have hpage {cursor : Option κ} {rows : List α} (hrows : (rows.map key).Nodup) :
      ((page key size cursor rows).items.map key).Pairwise (· < ·) := by
    have hall : ((past key cursor rows).map key).Pairwise (· < ·) := past_increasing hrows
    refine hall.sublist (List.Sublist.map key ?_)
    unfold page
    dsimp only
    split
    · exact (List.take_sublist _ _).trans (List.take_sublist _ _)
    · exact List.take_sublist _ _
  induction h with
  | last hnext =>
    exact ⟨hpage (hkeys _ (List.mem_singleton_self _)), fun x hx => (mem_past.mp (page_past hx)).2⟩
  | @more cursor rows c tables found hnext hrest ih =>
    obtain ⟨hrows, htables⟩ := List.forall_mem_cons.mp hkeys
    obtain ⟨hfound, hafter⟩ := ih htables
    obtain ⟨hbelow, habove, -⟩ := page_between hrows hnext
    constructor
    · rw [List.map_append, List.pairwise_append]
      refine ⟨hpage hrows, hfound, fun a ha b hb => ?_⟩
      obtain ⟨x, hx, rfl⟩ := List.mem_map.mp ha
      obtain ⟨y, hy, rfl⟩ := List.mem_map.mp hb
      exact lt_of_le_of_lt (hbelow x hx) (hafter y hy c rfl)
    · intro x hx d hd
      rcases List.mem_append.mp hx with hx | hx
      · exact (mem_past.mp (page_past hx)).2 d hd
      · exact (habove d hd).trans (hafter x hx c rfl)

/-- A key that every table has comes in one of the pages. -/
theorem Follows.complete (h : Follows key size cursor tables found) (hsize : 0 < size)
    (hkeys : ∀ rows ∈ tables, (rows.map key).Nodup) (hk : ∀ rows ∈ tables, ∃ x ∈ rows, key x = k)
    (hafter : ∀ d ∈ cursor, d < k) : k ∈ found.map key := by
  induction h with
  | last hnext =>
    obtain ⟨x, hx, rfl⟩ := hk _ (List.mem_singleton_self _)
    rw [page_last hnext hsize]
    exact List.mem_map_of_mem (mem_past.mpr ⟨hx, hafter⟩)
  | @more cursor rows c tables found hnext hrest ih =>
    obtain ⟨hrows, htables⟩ := List.forall_mem_cons.mp hkeys
    obtain ⟨⟨x, hx, rfl⟩, hlater⟩ := List.forall_mem_cons.mp hk
    rw [List.map_append, List.mem_append]
    -- the key is on this page, or the rest starts below it
    by_cases hle : key x ≤ c
    · exact .inl (List.mem_map_of_mem ((page_between hrows hnext).2.2 x (mem_past.mpr ⟨hx, hafter⟩) hle))
    · refine .inr (ih htables hlater fun d hd => ?_)
      obtain rfl := Option.some.inj hd
      exact not_le.mp hle

end Keyset
