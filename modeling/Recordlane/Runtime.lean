import Recordlane.Json
import Recordlane.Library.Decimal
import Recordlane.Library.Extended
import Mathlib.Logic.Function.Defs
import Mathlib.Data.List.Perm.Basic

/-! What the service takes from Python, from the database and from the clock. -/
namespace Recordlane

/-- A UUID in its text form. -/
abbrev Id := String

/-- A timezone-aware instant. -/
abbrev DateTime := Int

/-- What a request can raise. Only `http` is an answer the service words itself. -/
inductive Raised
  | http (status : Nat) (code : String) (detail : Dict)
  | policy (message : String)
  | validation (field : String)
  | integrity (constraint : String)
  | runtime (message : String)
  | python (exception : String)
  deriving Inhabited

/-- Fallible code: an exception ends it. -/
abbrev Py := Except Raised

/-- What a text is to the constructor of decimal numbers: a number, an infinity or a NaN under its text,
or no operand (`InvalidOperation`). -/
inductive ParsedDecimal
  | finite (d : Decimal)
  | special (text : String)
  | invalid
  deriving DecidableEq

/-- Library behaviour the service relies on. `uid` is the stream of fresh identifiers and `now`
the clock, both read by the number of rows inserted so far; `rowOrder` is the order in which an
unordered query returns its rows, which may change from one reading to the next. -/
structure Runtime where
  uid : Nat → Id
  uid_injective : Function.Injective uid
  now : Nat → DateTime
  isoformat : DateTime → String
  rowOrder : Nat → Nat → List Nat
  rowOrder_perm : ∀ n len, (rowOrder n len).Perm (List.range len)
  /-- The hexadecimal SHA-256 of the JSON text of a document whose keys are sorted. -/
  digest : Json → String
  strOf : Json → String
  parseFloat : String → Option (Extended ℚ)
  parseInt : String → Option Int
  nfkc : String → String
  isSpace : Char → Bool
  upper : String → String
  casefold : String → String
  capitalize : String → String
  /-- `Decimal(text)`. -/
  decimal : String → ParsedDecimal
  /-- `re.fullmatch(pattern, text)`, `none` for `re.error`. -/
  fullmatch : String → String → Option Bool
  /-- `SequenceMatcher(None, a, b).ratio()`. -/
  sequenceRatio : String → String → ℚ
  log : ℚ → ℚ
  /-- `math.exp`, `none` for `OverflowError`. -/
  exp : ℚ → Option ℚ

variable (rt : Runtime)

/-- The rows of a query without an order, as the database returns them. -/
def Runtime.scan {α : Type} (n : Nat) (rows : List α) : List α :=
  (rt.rowOrder n rows.length).filterMap fun i => rows[i]?

theorem filterMap_range_getElem {α : Type} (rows : List α) :
    ((List.range rows.length).filterMap fun i => rows[i]?) = rows := by
  induction rows with
  | nil => rfl
  | cons x rows ih =>
    rw [List.length_cons, List.range_succ_eq_map, List.filterMap_cons, List.filterMap_map]
    simpa [Function.comp_def] using ih

theorem Runtime.scan_perm {α : Type} (n : Nat) (rows : List α) : (rt.scan n rows).Perm rows := by
  have h := (rt.rowOrder_perm n rows.length).filterMap fun i => rows[i]?
  rwa [filterMap_range_getElem] at h

theorem Runtime.mem_scan {α : Type} {n : Nat} {rows : List α} {x : α} :
    x ∈ rt.scan n rows ↔ x ∈ rows := (rt.scan_perm n rows).mem_iff

mutual

/-- A text for every document, of which none can be mistaken for another in a small example. -/
def Json.render : Json → String
  | .null => "null"
  | .bool b => if b then "true" else "false"
  | .int i => toString i
  | .float q => toString q.num ++ "/" ++ toString q.den
  | .str s => "'" ++ s ++ "'"
  | .arr xs => "[" ++ renderList xs ++ "]"
  | .obj kvs => "(" ++ renderEntries kvs ++ ")"

def Json.renderList : List Json → String
  | [] => ""
  | x :: xs => x.render ++ "," ++ renderList xs

def Json.renderEntries : List (String × Json) → String
  | [] => ""
  | (k, v) :: kvs => k ++ ":" ++ v.render ++ "," ++ renderEntries kvs

end

theorem replicate_text_injective : Function.Injective fun n => String.ofList (List.replicate n 'i') := by
  intro m n h
  simpa using congrArg (fun text => text.toList.length) h

/-- A runtime for small texts: ids in unary, rows in their order, documents for digests. -/
def Runtime.plain : Runtime where
  uid n := String.ofList (List.replicate n 'i')
  uid_injective := replicate_text_injective
  now n := n
  isoformat t := toString t
  rowOrder _ len := List.range len
  rowOrder_perm _ _ := List.Perm.refl _
  digest := Json.render
  strOf
    | .str s => s
    | v => v.render
  parseFloat _ := none
  parseInt _ := none
  nfkc s := s
  isSpace c := c = ' '
  upper s := s
  casefold s := s
  capitalize s := s
  decimal s := match Decimal.ofText s with
    | some d => .finite d
    | none => .invalid
  fullmatch pattern text := some (pattern = text)
  sequenceRatio a b := if a = b then 1 else 0
  log q := q
  exp q := some q

/-- `canonical_hash`: equal documents up to key order have one hash. -/
def canonicalHash (v : Json) : String := rt.digest v.sortKeys

/-- `text[:n]`. -/
def takeChars (n : Nat) (text : String) : String := String.ofList (text.toList.take n)

/-- `round(q, digits)` of an exact number, ties to even. -/
def roundHalfEven (q : ℚ) (digits : Nat) : ℚ :=
  let scaled := q * 10 ^ digits
  let low := scaled.floor
  let rest := scaled - low
  let whole := if rest < 1 / 2 then low else if 1 / 2 < rest then low + 1
    else if low % 2 = 0 then low else low + 1
  (whole : ℚ) / 10 ^ digits

/-- `round(x, digits)`, which leaves what is no number as it is. -/
def roundFloat (x : Extended ℚ) (digits : Nat) : Extended ℚ := x.map fun q => roundHalfEven q digits

/-- A float in a document. `Json` has numbers only, and the others are there as the text that `float`
reads. -/
def floatJson : Extended ℚ → Json
  | .finite q => .float q
  | .infinite negative => .str (if negative then "-Infinity" else "Infinity")
  | .nan => .str "NaN"

namespace Json

/-- `for x in v`. -/
def iter : Json → Py (List Json)
  | .arr xs => .ok xs
  | .obj kvs => .ok (kvs.map fun p => .str p.1)
  | .str s => .ok (s.toList.map fun c => .str (String.singleton c))
  | _ => .error (.python "TypeError")

/-- A `dict`, where the code calls dict methods. -/
def asDict : Json → Py Dict
  | .obj kvs => .ok kvs
  | _ => .error (.python "AttributeError")

/-- `dict(v)`, from a map or from pairs. -/
def toDict : Json → Py Dict
  | .obj kvs => .ok kvs
  | .arr xs => xs.foldlM (fun d x =>
      match x with
      | .arr [.str k, v] => .ok (d.set k v)
      | _ => .error (.python "TypeError")) []
  | _ => .error (.python "TypeError")

/-- `d.get(k)` for a key of any type: only a text can be a key of `d`. -/
def lookup (d : Dict) : Json → Py Json
  | .str k => .ok (d.get k)
  | .arr _ | .obj _ => .error (.python "TypeError")
  | _ => .ok .null

/-- Whether `sub` occurs in `text`. -/
def isInfix (sub : List Char) : List Char → Bool
  | [] => sub.isEmpty
  | c :: text => sub.isPrefixOf (c :: text) || isInfix sub text

/-- `v in container`. -/
def isIn (v container : Json) : Py Bool :=
  match container, v with
  | .arr xs, v => .ok (xs.any fun x => x.pyEq v)
  | .obj kvs, .str k => .ok (Dict.contains kvs k)
  | .obj _, .arr _ | .obj _, .obj _ => .error (.python "TypeError")
  | .obj _, _ => .ok false
  | .str s, .str k => .ok (isInfix k.toList s.toList)
  | _, _ => .error (.python "TypeError")

/-- The least integer that no float is near to. -/
@[irreducible] def floatLimit : Int := (2 ^ 54 - 1) * 2 ^ 970

/-- `float(v)`. -/
def toFloat : Json → Py (Extended ℚ)
  | .str s =>
    if s = "Infinity" then .ok (.infinite false)
    else if s = "-Infinity" then .ok (.infinite true)
    else if s = "NaN" then .ok .nan
    else match rt.parseFloat s with
      | some x => .ok x
      | none => .error (.python "ValueError")
  | .int i => if floatLimit ≤ |i| then .error (.python "OverflowError") else .ok (.finite i)
  | v =>
    match v.number? with
    | some q => .ok (.finite q)
    | none => .error (.python "TypeError")

theorem toFloat_floatJson (x : Extended ℚ) : toFloat rt (floatJson x) = .ok x := by
  cases x with
  | finite q => rfl
  | nan => rfl
  | infinite negative => cases negative <;> rfl

theorem toFloat_int {i : Int} (h : |i| < 2 ^ 53) : toFloat rt (.int i) = .ok (.finite i) := by
  have hlimit : (2 : Int) ^ 53 ≤ floatLimit := by
    rw [floatLimit]
    have hpower : (1 : Int) ≤ 2 ^ 970 := Int.pow_pos (by decide)
    generalize (2 : Int) ^ 970 = n at hpower
    omega
  rw [toFloat, if_neg (by omega)]

theorem toFloat_one : toFloat rt (.int 1) = .ok 1 := by
  rw [toFloat_int rt (by decide), Int.cast_one, Extended.one_eq]

/-- `int(v)`, which cuts a float off towards zero. -/
def toInt : Json → Py Int
  | .str s =>
    match rt.parseInt s with
    | some i => .ok i
    | none => .error (.python "ValueError")
  | v =>
    match v.number? with
    | some q => .ok (q.num.tdiv q.den)
    | none => .error (.python "TypeError")

/-- A number in arithmetic. -/
def arith (v : Json) : Py ℚ :=
  match v.number? with
  | some q => .ok q
  | none => .error (.python "TypeError")

def isStr : Json → Bool
  | .str _ => true
  | _ => false

end Json

end Recordlane
