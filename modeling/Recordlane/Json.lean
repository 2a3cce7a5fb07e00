import Mathlib.Data.List.Sort
import Mathlib.Data.Rat.Defs
import Mathlib.Algebra.Order.Ring.Rat

/-! JSON documents as the service holds them: ordered maps, exact numbers. -/
namespace Recordlane

/-- A JSON value. Floats are exact rationals, without infinities and NaN. -/
inductive Json
  | null
  | bool (b : Bool)
  | int (i : Int)
  | float (q : ℚ)
  | str (s : String)
  | arr (xs : List Json)
  | obj (kvs : List (String × Json))
  deriving Inhabited

/-- A `dict` with string keys, in insertion order. -/
abbrev Dict := List (String × Json)

namespace Dict

def get? (d : Dict) (k : String) : Option Json := (d.find? fun p => p.1 = k).map Prod.snd

/-- `d.get(k)` with the default `None`. -/
def get (d : Dict) (k : String) : Json := (d.get? k).getD .null

def contains (d : Dict) (k : String) : Bool := d.any fun p => p.1 = k

/-- `d[k] = v`: an existing key keeps its place. -/
def set (d : Dict) (k : String) (v : Json) : Dict :=
  if d.contains k then d.map fun p => if p.1 = k then (k, v) else p else d ++ [(k, v)]

/-- `d.update(new)`. -/
def update (d new : Dict) : Dict := new.foldl (fun d p => d.set p.1 p.2) d

def erase (d : Dict) (k : String) : Dict := d.filter fun p => p.1 ≠ k

def keys (d : Dict) : List String := d.map Prod.fst

theorem set_of_not_mem {d : Dict} {k : String} {v : Json} (h : k ∉ d.keys) :
    d.set k v = d ++ [(k, v)] := by
  refine if_neg fun hc => h ?_
  obtain ⟨p, hp, hk⟩ := List.any_eq_true.mp hc
  rw [← of_decide_eq_true hk]
  exact List.mem_map_of_mem hp

theorem update_append {d new : Dict} (h : (d.keys ++ new.keys).Nodup) : d.update new = d ++ new := by
  induction new generalizing d with
  | nil => exact (List.append_nil d).symm
  | cons p new ih =>
    have hp : p.1 ∉ d.keys := by
      intro hmem
      exact List.disjoint_of_nodup_append h hmem List.mem_cons_self
    rw [update, List.foldl_cons, set_of_not_mem hp]
    refine (ih ?_).trans (List.append_assoc ..)
    rw [keys, List.map_append, List.append_assoc]
    exact h

theorem nil_update {new : Dict} (h : new.keys.Nodup) : update [] new = new := update_append h

end Dict

/-- `sorted(set(xs))` on strings. -/
def sortedSet (xs : List String) : List String := xs.dedup.insertionSort (· ≤ ·)

namespace Json

/-- `bool(v)`. -/
def truthy : Json → Bool
  | .null => false
  | .bool b => b
  | .int i => i ≠ 0
  | .float q => q ≠ 0
  | .str s => s ≠ ""
  | .arr xs => !xs.isEmpty
  | .obj kvs => !kvs.isEmpty

/-- `v in (None, "")`. -/
def blank : Json → Bool
  | .null => true
  | .str s => s = ""
  | _ => false

/-- The number behind `bool`, `int` and `float`, which Python compares by value. -/
def number? : Json → Option ℚ
  | .bool b => some (if b then 1 else 0)
  | .int i => some i
  | .float q => some q
  | _ => none

mutual

/-- Python's `==`: numbers by value, maps without regard to order. -/
def pyEq : Json → Json → Bool
  | .null, .null => true
  | .str a, .str b => a = b
  | .arr xs, .arr ys => pyEqList xs ys
  | .obj ds, .obj es => ds.length = es.length && pyEqEntries ds es
  | a, b =>
    match a.number?, b.number? with
    | some p, some q => p = q
    | _, _ => false

def pyEqList : List Json → List Json → Bool
  | [], [] => true
  | x :: xs, y :: ys => pyEq x y && pyEqList xs ys
  | _, _ => false

def pyEqEntries : List (String × Json) → List (String × Json) → Bool
  | [], _ => true
  | (k, v) :: ds, es =>
    (match Dict.get? es k with
      | some w => pyEq v w
      | none => false) && pyEqEntries ds es

end

mutual

/-- The document `json.dumps(..., sort_keys=True)` writes: keys sorted at every depth. -/
def sortKeys : Json → Json
  | .arr xs => .arr (sortKeysList xs)
  | .obj kvs => .obj ((sortKeysEntries kvs).insertionSort fun p q => p.1 ≤ q.1)
  | v => v

def sortKeysList : List Json → List Json
  | [] => []
  | x :: xs => sortKeys x :: sortKeysList xs

def sortKeysEntries : List (String × Json) → List (String × Json)
  | [] => []
  | (k, v) :: kvs => (k, sortKeys v) :: sortKeysEntries kvs

end

mutual

/-- Two documents are one and the same, the order of their keys included. -/
def same : Json → Json → Bool
  | .null, .null => true
  | .bool a, .bool b => a = b
  | .int a, .int b => a = b
  | .float a, .float b => a = b
  | .str a, .str b => a = b
  | .arr xs, .arr ys => sameList xs ys
  | .obj ds, .obj es => sameEntries ds es
  | _, _ => false

def sameList : List Json → List Json → Bool
  | [], [] => true
  | x :: xs, y :: ys => same x y && sameList xs ys
  | _, _ => false

def sameEntries : List (String × Json) → List (String × Json) → Bool
  | [], [] => true
  | (k, v) :: ds, (j, w) :: es => k = j && same v w && sameEntries ds es
  | _, _ => false

end

mutual

theorem same_iff : ∀ v w : Json, same v w = true ↔ v = w
  | .null, w | .bool _, w | .int _, w | .float _, w | .str _, w => by cases w <;> simp [same]
  | .arr xs, w => by cases w <;> simp [same, sameList_iff xs]
  | .obj ds, w => by cases w <;> simp [same, sameEntries_iff ds]

theorem sameList_iff : ∀ xs ys : List Json, sameList xs ys = true ↔ xs = ys
  | [], ys => by cases ys <;> simp [sameList]
  | x :: xs, ys => by cases ys <;> simp [sameList, same_iff x, sameList_iff xs]

theorem sameEntries_iff : ∀ ds es : List (String × Json), sameEntries ds es = true ↔ ds = es
  | [], es => by cases es <;> simp [sameEntries]
  | (k, v) :: ds, es => by
    cases es with
    | nil => simp [sameEntries]
    | cons e es => simp [sameEntries, same_iff v, sameEntries_iff ds, Prod.ext_iff]

end

instance : DecidableEq Json := fun v w => decidable_of_iff (same v w = true) (same_iff v w)

end Json

end Recordlane
