import Mathlib.Data.List.Nodup
import Mathlib.Data.List.Basic
import Mathlib.Data.List.Sort
import Mathlib.Data.List.Forall2

/-! Tables: lists of rows addressed by a key. Rows are found, appended and changed in place. -/
namespace Table

variable {α κ : Type*} {key : α → κ} {rows : List α} {k j : κ} {f : α → α} {r : α}

/-- Keys identify rows. -/
def Keyed (key : α → κ) (rows : List α) : Prop := (rows.map key).Nodup

theorem Keyed.eq_of_mem (h : Keyed key rows) {r s : α} (hr : r ∈ rows) (hs : s ∈ rows)
    (he : key r = key s) : r = s := List.inj_on_of_nodup_map h hr hs he

theorem Keyed.map (h : Keyed key rows) (hf : ∀ r ∈ rows, key (f r) = key r) :
    Keyed key (rows.map f) := by
  have hmap : (rows.map f).map key = rows.map key := by
    rw [List.map_map]
    exact List.map_congr_left hf
  rw [Keyed, hmap]
  exact h

theorem Keyed.append (h : Keyed key rows) (hn : ∀ s ∈ rows, key s ≠ key r) :
    Keyed key (rows ++ [r]) := by
  rw [Keyed, List.map_append]
  refine List.Nodup.append h (by simp) ?_
  intro j hj hj'
  obtain ⟨s, hs, rfl⟩ := List.mem_map.mp hj
  exact hn s hs (by simpa using hj')

/-- Rows that one list holds from the start of another, and that show the same faces as all of the
other, are the rows of the other one by one. -/
theorem Keyed.aligned {β γ : Type*} {place : α → β} {face : α → γ} {rows rows' : List α}
    (hk : Keyed key rows') (hplace : rows.map place <+: rows'.map place)
    (hface : (rows.map face).Perm (rows'.map face))
    (hp : ∀ a b, place a = place b → key a = key b) (hf : ∀ a b, face a = face b → key a = key b) :
    List.Forall₂ (fun a b => a ∈ rows ∧ place a = place b ∧ face a = face b) rows rows' := by
  have hlength : rows.length = rows'.length := by simpa using hface.length_eq
  have hplaces : rows.map place = rows'.map place := hplace.eq_of_length (by simpa using hlength)
  have hrows : List.Forall₂ (fun a b => place a = place b) rows rows' := by
    have heq := List.forall₂_eq_eq_eq ▸ hplaces
    rwa [List.forall₂_map_left_iff, List.forall₂_map_right_iff] at heq
  rw [List.forall₂_iff_zip] at hrows ⊢
  refine ⟨hlength, fun {a b} hab => ?_⟩
  obtain ⟨ha, hb⟩ := List.of_mem_zip hab
  obtain ⟨c, hc, hca⟩ := List.mem_map.mp (hface.subset (List.mem_map_of_mem ha))
  have hsame := hrows.2 hab
  have hcb : c = b := hk.eq_of_mem hc hb ((hf c a hca).trans (hp a b hsame))
  exact ⟨ha, hsame, hcb ▸ hca.symm⟩

variable [DecidableEq κ]

/-- The first row with key `k`. -/
def find (key : α → κ) (rows : List α) (k : κ) : Option α := rows.find? fun r => key r = k

/-- `f` applied to every row with key `k`. -/
def modify (key : α → κ) (rows : List α) (k : κ) (f : α → α) : List α :=
  rows.map fun r => if key r = k then f r else r

theorem find_mem (h : find key rows k = some r) : r ∈ rows := List.mem_of_find?_eq_some h

theorem find_key (h : find key rows k = some r) : key r = k := by
  simpa using List.find?_some h

theorem find_eq_none : find key rows k = none ↔ ∀ r ∈ rows, key r ≠ k := by
  simp [find]

theorem Keyed.find_of_mem (h : Keyed key rows) (hr : r ∈ rows) : find key rows (key r) = some r := by
  cases hf : find key rows (key r) with
  | none => exact (find_eq_none.mp hf r hr rfl).elim
  | some s => rw [h.eq_of_mem (find_mem hf) hr (find_key hf)]

theorem Keyed.find_iff (h : Keyed key rows) : find key rows k = some r ↔ r ∈ rows ∧ key r = k := by
  constructor
  · intro hf
    exact ⟨find_mem hf, find_key hf⟩
  · rintro ⟨hr, rfl⟩
    exact h.find_of_mem hr

theorem find_map (hf : ∀ r, key (f r) = key r) :
    find key (rows.map f) k = (find key rows k).map f := by
  simp only [find, List.find?_map, Function.comp_def, hf]

theorem mem_modify : r ∈ modify key rows k f ↔
    (r ∈ rows ∧ key r ≠ k) ∨ ∃ s ∈ rows, key s = k ∧ f s = r := by
  simp only [modify, List.mem_map]
  constructor
  · rintro ⟨s, hs, rfl⟩
    by_cases hk : key s = k
    · exact Or.inr ⟨s, hs, hk, by simp [hk]⟩
    · exact Or.inl (by simp [hk, hs])
  · rintro (⟨hr, hk⟩ | ⟨s, hs, hk, rfl⟩)
    · exact ⟨r, hr, by simp [hk]⟩
    · exact ⟨s, hs, by simp [hk]⟩

/-- A row takes the place of the one with its key, and its other key is that of no third row. -/
theorem Keyed.modify_other {μ : Type*} {other : α → μ} (h : Keyed key rows) (ho : Keyed other rows)
    (hn : ∀ s ∈ rows, key s ≠ k → other s ≠ other r) : Keyed other (modify key rows k fun _ => r) := by
  have hkeys : (rows.map fun s => other (if key s = k then r else s)).Nodup := by
    refine List.Nodup.map_on (fun s hs t ht heq => ?_) (List.Nodup.of_map key h)
    by_cases hsk : key s = k <;> by_cases htk : key t = k <;> simp only [hsk, htk, if_true, if_false] at heq
    · exact h.eq_of_mem hs ht (hsk.trans htk.symm)
    · exact (hn t ht htk heq.symm).elim
    · exact (hn s hs hsk heq).elim
    · exact ho.eq_of_mem hs ht heq
  rwa [Keyed, modify, List.map_map]

theorem mem_modify_of_mem (hr : r ∈ rows) :
    (if key r = k then f r else r) ∈ modify key rows k f := List.mem_map_of_mem hr

theorem map_key_modify (hf : ∀ r, key (f r) = key r) :
    (modify key rows k f).map key = rows.map key := by
  simp only [modify, List.map_map, List.map_inj_left, Function.comp]
  intro r _
  split <;> simp [hf]

theorem map_modify {β : Type*} {g : α → β} (hf : ∀ r, g (f r) = g r) :
    (modify key rows k f).map g = rows.map g := by
  simp only [modify, List.map_map, List.map_inj_left, Function.comp]
  intro r _
  split <;> simp [hf]

theorem find_append (hn : find key rows (key r) = none) :
    find key (rows ++ [r]) k = if key r = k then some r else find key rows k := by
  unfold find at *
  rw [List.find?_append]
  split
  · next h => subst h; simp [hn]
  · next h => simp [h]

theorem find_append_of_some {s : α} (h : find key rows k = some s) (new : List α) :
    find key (rows ++ new) k = some s := by
  unfold find at *
  rw [List.find?_append, h]
  rfl

theorem find_modify (hf : ∀ r, key (f r) = key r) :
    find key (modify key rows k f) j =
      if j = k then (find key rows j).map f else find key rows j := by
  induction rows with
  | nil => simp [find, modify]
  | cons s rows ih =>
    have hcons : ∀ (t : α) (ts : List α), find key (t :: ts) j =
        if key t = j then some t else find key ts j := by
      intro t ts
      by_cases ht : key t = j <;> simp [find, ht]
    have hmod : modify key (s :: rows) k f =
        (if key s = k then f s else s) :: modify key rows k f := rfl
    rw [hmod, hcons, hcons, ih]
    by_cases hj : j = k
    · subst hj
      by_cases hs : key s = j <;> simp [hs, hf]
    · by_cases hs : key s = k
      · simp [hs, hf, hj, Ne.symm hj]
      · simp [hs, hj]

theorem find_write {new : α} (h : find key rows (key new) = some r) :
    find key (modify key rows (key new) fun _ => new) (key new) = some new := by
  have hsame : (modify key rows (key new) fun _ => new) =
      modify key rows (key new) fun r => if key r = key new then new else r := by
    refine List.map_congr_left fun r _ => ?_
    by_cases hr : key r = key new <;> simp [hr]
  have hkey : ∀ r, key (if key r = key new then new else r) = key r := by
    intro r
    by_cases hr : key r = key new <;> simp [hr]
  rw [hsame, find_modify hkey, if_pos rfl, h, Option.map_some, find_key h, if_pos rfl]

theorem find?_modify {q : α → Bool} (hq : ∀ r, q (f r) = q r) : (modify key rows k f).find? q =
    (rows.find? q).map fun r => if key r = k then f r else r := by
  unfold modify
  rw [List.find?_map]
  congr 2
  funext r
  by_cases hr : key r = k <;> simp [hr, hq]

theorem modify_of_ne (h : ∀ r ∈ rows, key r ≠ k) : modify key rows k f = rows := by
  unfold modify
  conv_rhs => rw [← List.map_id rows]
  rw [List.map_inj_left]
  intro r hr
  simp [h r hr]

theorem modify_of_id (h : ∀ r, f r = r) : modify key rows k f = rows := by
  simp [modify, h]

theorem modify_append (new : List α) :
    modify key (rows ++ new) k f = modify key rows k f ++ modify key new k f := by
  simp [modify]

theorem modify_append_new (h : ∀ s ∈ rows, key s ≠ key r) :
    modify key (rows ++ [r]) (key r) f = rows ++ [f r] := by
  rw [modify_append, modify_of_ne h]
  simp [modify]

theorem filter_modify {p : α → Bool} (h : ∀ r ∈ rows, key r = k → p r = false ∧ p (f r) = false) :
    (modify key rows k f).filter p = rows.filter p := by
  induction rows with
  | nil => rfl
  | cons r rows ih =>
    have ih := ih fun s hs => h s (List.mem_cons_of_mem r hs)
    unfold modify at ih ⊢
    rw [List.map_cons, List.filter_cons, List.filter_cons, ih]
    by_cases hk : key r = k
    · have hr := h r List.mem_cons_self hk
      simp [hk, hr.1, hr.2]
    · simp [hk]

theorem Keyed.filter_modify {p : α → Bool} (h : Keyed key rows) (hr : r ∈ rows) (hout : p r = false)
    (hin : p (f r) = true) :
    ((modify key rows (key r) f).filter p).Perm (f r :: rows.filter p) := by
  obtain ⟨before, behind, rfl⟩ := List.mem_iff_append.mp hr
  have hothers : (∀ x ∈ before, key x ≠ key r) ∧ ∀ x ∈ behind, key x ≠ key r := by
    rw [Keyed, List.map_append, List.map_cons, List.nodup_middle, List.nodup_cons,
      ← List.map_append] at h
    refine ⟨fun x hx hkey => h.1 ?_, fun x hx hkey => h.1 ?_⟩
    · exact hkey ▸ List.mem_map_of_mem (List.mem_append_left _ hx)
    · exact hkey ▸ List.mem_map_of_mem (List.mem_append_right _ hx)
  have hchanged : modify key (before ++ r :: behind) (key r) f = before ++ f r :: behind := by
    rw [modify_append, modify_of_ne hothers.1]
    congr 1
    rw [modify, List.map_cons, if_pos rfl]
    exact congrArg (f r :: ·) (modify_of_ne hothers.2)
  rw [hchanged, List.filter_append, List.filter_append, List.filter_cons_of_pos hin,
    List.filter_cons_of_neg (by simp [hout])]
  exact List.perm_middle

theorem modify_modify {g : α → α} (hf : ∀ r, key (f r) = key r) :
    modify key (modify key rows k f) k g = modify key rows k (g ∘ f) := by
  simp only [modify, List.map_map, List.map_inj_left, Function.comp]
  intro r _
  by_cases h : key r = k <;> simp [h, hf]

theorem Keyed.modify_congr {g : α → α} (h : Keyed key rows) (hr : r ∈ rows) (hfg : f r = g r) :
    modify key rows (key r) f = modify key rows (key r) g := by
  refine List.map_congr_left fun s hs => ?_
  by_cases hk : key s = key r
  · rw [if_pos hk, if_pos hk, h.eq_of_mem hs hr hk, hfg]
  · rw [if_neg hk, if_neg hk]

theorem length_modify : (modify key rows k f).length = rows.length := by simp [modify]

theorem filter_eq_of_imp {p q : α → Bool} {rows' : List α} (h : rows.filter q = rows'.filter q)
    (hpq : ∀ r, p r → q r) : rows.filter p = rows'.filter p := by
  have hboth : ∀ rs : List α, rs.filter p = (rs.filter q).filter p := by
    intro rs
    rw [List.filter_filter]
    refine List.filter_congr fun r _ => ?_
    cases hp : p r
    · simp
    · simp [hpq r hp]
  rw [hboth, h, ← hboth]

/-! Rows sorted by their keys. -/

section Sorting

variable (le : κ → κ → Prop) [DecidableRel le]

theorem find_orderedInsert (hrefl : ∀ k, le k k) :
    find key (rows.orderedInsert (fun a b => le (key a) (key b)) r) k =
      if key r = k then some r else find key rows k := by
  induction rows with
  | nil =>
    by_cases hr : key r = k <;> simp [find, hr]
  | cons a rows ih =>
    rw [List.orderedInsert_cons]
    by_cases hle : le (key r) (key a)
    · rw [if_pos hle]
      by_cases hr : key r = k <;> simp [find, hr]
    · rw [if_neg hle]
      by_cases ha : key a = k
      · have hr : key r ≠ k := by
          intro hr
          rw [hr, ha] at hle
          exact hle (hrefl k)
        simp [find, ha, hr]
      · simp only [find, List.find?_cons, ha, decide_false] at ih ⊢
        exact ih

/-- The sort is stable, so that the first row of a key stays the first one. -/
theorem find_sort (hrefl : ∀ k, le k k) :
    find key (rows.insertionSort fun a b => le (key a) (key b)) k = find key rows k := by
  induction rows with
  | nil => rfl
  | cons a rows ih =>
    rw [List.insertionSort_cons, find_orderedInsert le hrefl, ih]
    by_cases ha : key a = k <;> simp [find, ha]

end Sorting

end Table
