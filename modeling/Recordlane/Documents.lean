import Recordlane.Canonical

/-! Documents as a parser of JSON leaves them: a map has each of its keys once. -/
namespace Recordlane

variable {d e : Dict} {k : String} {v : Json}

namespace Json

mutual

/-- Each map in the document has its keys once. -/
def unique : Json → Bool
  | .arr xs => uniqueList xs
  | .obj kvs => decide (kvs.map Prod.fst).Nodup && uniqueEntries kvs
  | _ => true

def uniqueList : List Json → Bool
  | [] => true
  | x :: xs => unique x && uniqueList xs

def uniqueEntries : List (String × Json) → Bool
  | [] => true
  | (_, v) :: kvs => unique v && uniqueEntries kvs

end

theorem uniqueList_iff {xs : List Json} : uniqueList xs = true ↔ ∀ x ∈ xs, unique x = true := by
  induction xs with
  | nil => simp [uniqueList]
  | cons x xs ih => simp [uniqueList, ih]

theorem uniqueEntries_iff {kvs : List (String × Json)} :
    uniqueEntries kvs = true ↔ ∀ p ∈ kvs, unique p.2 = true := by
  induction kvs with
  | nil => simp [uniqueEntries]
  | cons p kvs ih => simp [uniqueEntries, ih]

theorem unique_arr {xs : List Json} : unique (.arr xs) = true ↔ ∀ x ∈ xs, unique x = true := by
  rw [unique, uniqueList_iff]

theorem unique_obj : unique (.obj d) = true ↔ d.keys.Nodup ∧ ∀ p ∈ d, unique p.2 = true := by
  rw [unique, Bool.and_eq_true, decide_eq_true_eq, uniqueEntries_iff, Dict.keys]

theorem unique_strs {names : List String} : unique (.arr (names.map .str)) = true := by
  rw [unique_arr]
  intro x hx
  obtain ⟨name, -, rfl⟩ := List.mem_map.mp hx
  rfl

end Json

/-- A document that a parser has read. -/
structure Document where
  value : Json
  unique : value.unique = true

namespace Dict

theorem get?_mem (h : d.get? k = some v) : (k, v) ∈ d := by
  obtain ⟨p, hp, rfl⟩ := Option.map_eq_some_iff.mp h
  have hk := List.find?_some hp
  rw [decide_eq_true_eq] at hk
  rw [← hk]
  exact List.mem_of_find?_eq_some hp

theorem get?_of_mem (hd : d.keys.Nodup) (h : (k, v) ∈ d) : d.get? k = some v := by
  have hfind := Table.Keyed.find_of_mem (show Table.Keyed Prod.fst d from hd) h
  exact congrArg (Option.map Prod.snd) hfind

theorem get?_set : (d.set k v).get? k = some v := by
  have hmap (h : d.contains k = true) :
      (d.map fun p => if p.1 = k then (k, v) else p).find? (fun p => p.1 = k) = some (k, v) := by
    induction d with
    | nil => cases h
    | cons p d ih =>
      rw [List.map_cons, List.find?_cons]
      by_cases hp : p.1 = k
      · simp [hp]
      · rw [contains, List.any_cons, decide_eq_false hp, Bool.false_or] at h
        rw [if_neg hp, decide_eq_false hp]
        exact ih h
  by_cases hc : d.contains k = true
  · rw [set, if_pos hc, get?, hmap hc, Option.map_some]
  · have hk : k ∉ d.keys := by
      intro hmem
      obtain ⟨p, hp, hpk⟩ := List.mem_map.mp hmem
      exact hc (List.any_eq_true.mpr ⟨p, hp, decide_eq_true hpk⟩)
    have hnone : d.find? (fun p => p.1 = k) = none := by
      refine List.find?_eq_none.mpr fun p hp hpk => hk ?_
      rw [decide_eq_true_eq] at hpk
      exact List.mem_map.mpr ⟨p, hp, hpk⟩
    rw [set_of_not_mem hk, get?, List.find?_append, hnone]
    simp

theorem get?_set_of_ne {k' : String} (h : k' ≠ k) :
    (d.set k v).get? k' = d.get? k' := by
  have hmap : (d.map fun p => if p.1 = k then (k, v) else p).find? (fun p => p.1 = k') =
      d.find? fun p => p.1 = k' := by
    induction d with
    | nil => rfl
    | cons p d ih =>
      rw [List.map_cons, List.find?_cons, List.find?_cons, ih]
      by_cases hp : p.1 = k
      · simp [hp, h.symm]
      · rw [if_neg hp]
  unfold set get?
  split
  · rw [hmap]
  · rw [List.find?_append]
    simp [h.symm]

theorem get?_update {new : Dict} (h : k ∉ new.keys) :
    (d.update new).get? k = d.get? k := by
  induction new generalizing d with
  | nil => rfl
  | cons p new ih =>
    rw [keys, List.map_cons, List.mem_cons, not_or] at h
    exact (ih h.2).trans (get?_set_of_ne h.1)

theorem get?_erase {k' : String} : (d.erase k).get? k' = if k' = k then none else d.get? k' := by
  rw [get?, erase, List.find?_filter]
  by_cases h : k' = k
  · rw [if_pos h, Option.map_eq_none_iff, List.find?_eq_none]
    intro p _
    simp [h]
  · rw [if_neg h, get?]
    congr 2
    funext p
    by_cases hp : p.1 = k' <;> simp [hp, h]

theorem unique_get? (hd : Json.unique (.obj d) = true) (h : d.get? k = some v) : v.unique = true :=
  (Json.unique_obj.mp hd).2 _ (get?_mem h)

theorem unique_get (hd : Json.unique (.obj d) = true) : (d.get k).unique = true := by
  rw [get]
  cases h : d.get? k with
  | none => rfl
  | some v => exact unique_get? hd h

theorem unique_getD (hd : Json.unique (.obj d) = true) (hv : v.unique = true) :
    ((d.get? k).getD v).unique = true := by
  cases h : d.get? k with
  | none => exact hv
  | some w => exact unique_get? hd h

theorem keys_set : (d.set k v).keys = if k ∈ d.keys then d.keys else d.keys ++ [k] := by
  by_cases hk : k ∈ d.keys
  · have hc : d.contains k = true := by
      obtain ⟨p, hp, rfl⟩ := List.mem_map.mp hk
      exact List.any_eq_true.mpr ⟨p, hp, decide_eq_true rfl⟩
    rw [set, if_pos hc, if_pos hk, keys, List.map_map]
    refine List.map_congr_left fun p _ => ?_
    by_cases hp : p.1 = k <;> simp [hp]
  · rw [set_of_not_mem hk, if_neg hk, keys, List.map_append, List.map_singleton, keys]

theorem unique_set (hd : Json.unique (.obj d) = true) (hv : v.unique = true) :
    Json.unique (.obj (d.set k v)) = true := by
  obtain ⟨hkeys, hvalues⟩ := Json.unique_obj.mp hd
  refine Json.unique_obj.mpr ⟨?_, fun p hp => ?_⟩
  · rw [keys_set]
    split
    · exact hkeys
    · next hk => exact hkeys.append (List.nodup_singleton k) (by simpa using hk)
  · unfold set at hp
    split at hp
    · obtain ⟨q, hq, rfl⟩ := List.mem_map.mp hp
      split
      · exact hv
      · exact hvalues q hq
    · rcases List.mem_append.mp hp with hp | hp
      · exact hvalues p hp
      · rw [List.mem_singleton.mp hp]
        exact hv

theorem unique_update (hd : Json.unique (.obj d) = true) (he : Json.unique (.obj e) = true) :
    Json.unique (.obj (d.update e)) = true := by
  have hvalues := (Json.unique_obj.mp he).2
  clear he
  unfold update
  induction e generalizing d with
  | nil => exact hd
  | cons p e ih =>
    exact ih (unique_set hd (hvalues p List.mem_cons_self)) fun q hq => hvalues q (List.mem_cons_of_mem _ hq)

theorem unique_erase (hd : Json.unique (.obj d) = true) : Json.unique (.obj (d.erase k)) = true := by
  obtain ⟨hkeys, hvalues⟩ := Json.unique_obj.mp hd
  refine Json.unique_obj.mpr ⟨?_, fun p hp => hvalues p (List.mem_of_mem_filter hp)⟩
  exact hkeys.sublist (List.filter_sublist.map Prod.fst)

theorem set_eq_self (hd : d.keys.Nodup) (h : d.get? k = some v) : d.set k v = d := by
  have hc : d.contains k = true := by rw [contains_eq_isSome, h, Option.isSome_some]
  rw [set, if_pos hc]
  refine (List.map_congr_left fun p hp => ?_).trans d.map_id
  split
  · next hk =>
    have hget := get?_of_mem hd (k := p.1) (v := p.2) hp
    rw [hk, h] at hget
    rw [id, ← hk, Option.some.inj hget]
  · rfl

theorem keys_sorted : d.sorted.keys.Perm d.keys := by
  rw [sorted, keys]
  refine ((List.perm_insertionSort _ _).map Prod.fst).trans ?_
  rw [Json.sortKeysEntries_eq_map, List.map_map]
  exact .refl _

theorem mem_sorted {p : String × Json} : p ∈ d.sorted ↔ ∃ q ∈ d, (q.1, q.2.sortKeys) = p := by
  rw [sorted, List.mem_insertionSort, Json.sortKeysEntries_eq_map, List.mem_map]

end Dict

namespace Json

mutual

theorem unique_sortKeys : ∀ v : Json, v.unique = true → v.sortKeys.unique = true
  | .arr xs, h => by
    rw [sortKeys]
    exact uniqueList_sortKeys xs h
  | .obj kvs, h => by
    obtain ⟨hkeys, hvalues⟩ := unique_obj.mp h
    rw [sortKeys_obj]
    refine unique_obj.mpr ⟨Dict.keys_sorted.nodup_iff.mpr hkeys, fun p hp => ?_⟩
    rw [Dict.sorted, List.mem_insertionSort] at hp
    exact uniqueEntries_iff.mp (uniqueEntries_sortKeys kvs (uniqueEntries_iff.mpr hvalues)) p hp
  | .null, _ | .bool _, _ | .int _, _ | .float _, _ | .str _, _ => rfl

theorem uniqueList_sortKeys : ∀ xs : List Json, uniqueList xs = true → uniqueList (sortKeysList xs) = true
  | [], _ => rfl
  | x :: xs, h => by
    rw [uniqueList, Bool.and_eq_true] at h
    rw [sortKeysList, uniqueList, unique_sortKeys x h.1, uniqueList_sortKeys xs h.2, Bool.and_true]

theorem uniqueEntries_sortKeys : ∀ kvs : List (String × Json), uniqueEntries kvs = true →
    uniqueEntries (sortKeysEntries kvs) = true
  | [], _ => rfl
  | (k, v) :: kvs, h => by
    rw [uniqueEntries, Bool.and_eq_true] at h
    rw [sortKeysEntries, uniqueEntries, unique_sortKeys v h.1, uniqueEntries_sortKeys kvs h.2,
      Bool.and_true]

end

mutual

theorem pyEq_self : ∀ v : Json, v.unique = true → v.pyEq v = true
  | .arr xs, h => by
    rw [pyEq]
    exact pyEqList_self xs h
  | .obj kvs, h => by
    obtain ⟨hkeys, hvalues⟩ := unique_obj.mp h
    rw [pyEq, decide_eq_true rfl, Bool.true_and]
    exact pyEqEntries_self kvs kvs (uniqueEntries_iff.mpr hvalues) fun p hp => Dict.get?_of_mem hkeys hp
  | .null, _ => rfl
  | .bool b, _ => by simp [pyEq, number?]
  | .int i, _ => by simp [pyEq, number?]
  | .float q, _ => by simp [pyEq, number?]
  | .str s, _ => by simp [pyEq]

theorem pyEqList_self : ∀ xs : List Json, uniqueList xs = true → pyEqList xs xs = true
  | [], _ => rfl
  | x :: xs, h => by
    rw [uniqueList, Bool.and_eq_true] at h
    rw [pyEqList, pyEq_self x h.1, pyEqList_self xs h.2, Bool.and_true]

theorem pyEqEntries_self : ∀ ds es : List (String × Json), uniqueEntries ds = true →
    (∀ p ∈ ds, Dict.get? es p.1 = some p.2) → pyEqEntries ds es = true
  | [], _, _, _ => by rw [pyEqEntries]
  | (k, v) :: ds, es, h, hget => by
    rw [uniqueEntries, Bool.and_eq_true] at h
    have hv : Dict.get? es k = some v := hget (k, v) List.mem_cons_self
    rw [pyEqEntries, hv]
    have hrest := pyEqEntries_self ds es h.2 fun p hp => hget p (List.mem_cons_of_mem _ hp)
    simp only [pyEq_self v h.1, hrest, Bool.and_true]

end

theorem pyEqEntries_iff {ds es : List (String × Json)} : pyEqEntries ds es = true ↔
    ∀ p ∈ ds, ∃ w, Dict.get? es p.1 = some w ∧ pyEq p.2 w = true := by
  induction ds with
  | nil => simp [pyEqEntries]
  | cons p ds ih =>
    rw [pyEqEntries, Bool.and_eq_true, ih, List.forall_mem_cons]
    refine and_congr_left fun _ => ?_
    cases Dict.get? es p.1 with
    | none => simp
    | some w => simp

theorem keys_subset {ds es : Dict} (hd : ds.keys.Nodup) (hlength : ds.length = es.length)
    (h : ∀ p ∈ ds, ∃ w, Dict.get? es p.1 = some w) : ∀ q ∈ es, q.1 ∈ ds.keys := by
  have hsub : ds.keys ⊆ es.keys := by
    intro k hk
    obtain ⟨p, hp, rfl⟩ := List.mem_map.mp hk
    obtain ⟨w, hw⟩ := h p hp
    exact List.mem_map.mpr ⟨_, Dict.get?_mem hw, rfl⟩
  have hperm : ds.keys.Perm es.keys :=
    (List.subperm_of_subset hd hsub).perm_of_length_le (by simp [Dict.keys, hlength])
  intro q hq
  exact hperm.mem_iff.mpr (List.mem_map_of_mem hq)

/-- One direction of the symmetry of maps, from that of their members. -/
theorem pyEqEntries_swap {ds es : Dict} (hd : ds.keys.Nodup) (he : es.keys.Nodup)
    (hlength : ds.length = es.length)
    (hswap : ∀ p ∈ ds, ∀ q ∈ es, pyEq p.2 q.2 = true → pyEq q.2 p.2 = true)
    (h : pyEqEntries ds es = true) : pyEqEntries es ds = true := by
  rw [pyEqEntries_iff] at h ⊢
  have hkeys := keys_subset hd hlength fun p hp => (h p hp).imp fun _ hw => hw.1
  intro q hq
  obtain ⟨p, hp, hpq⟩ := List.mem_map.mp (hkeys q hq)
  obtain ⟨w, hw, heq⟩ := h p hp
  have hget : Dict.get? es q.1 = some q.2 := Dict.get?_of_mem he hq
  rw [hpq, hget, Option.some.injEq] at hw
  subst hw
  exact ⟨p.2, hpq ▸ Dict.get?_of_mem hd hp, hswap p hp q hq heq⟩

mutual

theorem pyEq_comm : ∀ v w : Json, v.unique = true → w.unique = true → v.pyEq w = w.pyEq v
  | .arr xs, w, hv, hw => by
    cases w with
    | arr ys =>
      rw [pyEq, pyEq]
      exact pyEqList_comm xs ys hv hw
    | _ => simp [pyEq, number?]
  | .obj ds, w, hv, hw => by
    cases w with
    | obj es =>
      obtain ⟨hds, hvalues⟩ := unique_obj.mp hv
      obtain ⟨hes, hvalues'⟩ := unique_obj.mp hw
      have hmembers := pyEqEntries_comm ds (uniqueEntries_iff.mpr hvalues)
      rw [pyEq, pyEq, Bool.eq_iff_iff, Bool.and_eq_true, Bool.and_eq_true, decide_eq_true_eq,
        decide_eq_true_eq]
      constructor
      · rintro ⟨hlength, h⟩
        refine ⟨hlength.symm, pyEqEntries_swap hds hes hlength (fun p hp q hq heq => ?_) h⟩
        rw [← hmembers p hp q.2 (hvalues' q hq)]
        exact heq
      · rintro ⟨hlength, h⟩
        refine ⟨hlength.symm, pyEqEntries_swap hes hds hlength (fun q hq p hp heq => ?_) h⟩
        rw [hmembers p hp q.2 (hvalues' q hq)]
        exact heq
    | _ => simp [pyEq, number?]
  | .null, w, _, _ => by cases w <;> simp [pyEq, number?]
  | .bool b, w, _, _ => by cases w <;> simp [pyEq, number?, eq_comm]
  | .int i, w, _, _ => by cases w <;> simp [pyEq, number?, eq_comm]
  | .float q, w, _, _ => by cases w <;> simp [pyEq, number?, eq_comm]
  | .str s, w, _, _ => by cases w <;> simp [pyEq, number?, eq_comm]

theorem pyEqList_comm : ∀ xs ys : List Json, uniqueList xs = true → uniqueList ys = true →
    pyEqList xs ys = pyEqList ys xs
  | [], ys, _, _ => by cases ys <;> rfl
  | x :: xs, ys, hx, hy => by
    cases ys with
    | nil => rfl
    | cons y ys =>
      rw [uniqueList, Bool.and_eq_true] at hx hy
      rw [pyEqList, pyEqList, pyEq_comm x y hx.1 hy.1, pyEqList_comm xs ys hx.2 hy.2]

theorem pyEqEntries_comm : ∀ ds : List (String × Json), uniqueEntries ds = true →
    ∀ p ∈ ds, ∀ w : Json, w.unique = true → pyEq p.2 w = pyEq w p.2
  | [], _, _, hp, _, _ => nomatch hp
  | (k, v) :: ds, h, p, hp, w, hw => by
    rw [uniqueEntries, Bool.and_eq_true] at h
    rcases List.mem_cons.mp hp with rfl | hp
    · exact pyEq_comm v w h.1 hw
    · exact pyEqEntries_comm ds h.2 p hp w hw

end

end Json

end Recordlane
