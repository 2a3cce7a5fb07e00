import Mathlib.Data.List.Basic
import Mathlib.Algebra.Group.Nat.Defs

/-! Decimal numbers with a sign and an exponent: their texts, and the rounding of a context. -/

/-- The number of a sign, a coefficient and an exponent of ten. -/
structure Decimal where
  negative : Bool
  coefficient : Nat
  exponent : Int
  deriving DecidableEq

namespace Decimal

/-- The precision of an arithmetic, and the range of its exponents. -/
structure Context where
  precision : Nat
  emin : Int
  emax : Int

namespace Context

/-- 28 digits, and exponents up to a million. -/
def standard : Context := ⟨28, -999999, 999999⟩

/-- The least exponent of any coefficient. -/
def etiny (ctx : Context) : Int := ctx.emin - ctx.precision + 1

/-- The largest exponent of a coefficient with all digits. -/
def etop (ctx : Context) : Int := ctx.emax - ctx.precision + 1

end Context

/-- The digits of a coefficient; zero has one. -/
def digits (c : Nat) : List Char := Nat.toDigits 10 c

/-- The nearest whole number to `c / m`, ties to even. -/
def divideHalfEven (c m : Nat) : Nat :=
  if 2 * (c % m) < m then c / m
  else if m < 2 * (c % m) then c / m + 1
  else if c / m % 2 = 0 then c / m else c / m + 1

/-- The number within the precision and the range of a context; `none` for an overflow. -/
def fix (ctx : Context) (d : Decimal) : Option Decimal :=
  let length : Int := (digits d.coefficient).length
  let least := length + d.exponent - ctx.precision
  if ctx.etop < least then none
  else
    let least := max least ctx.etiny
    if d.exponent < least then
      let c := if length + d.exponent < least then 0
        else divideHalfEven d.coefficient (10 ^ (least - d.exponent).toNat)
      -- nines that are rounded up have one digit more
      let (c, least) := if ctx.precision < (digits c).length then (c / 10, least + 1) else (c, least)
      if ctx.etop < least then none else some ⟨d.negative, c, least⟩
    else some d

/-- Zeros at the end of a coefficient go to the exponent, up to its limit. -/
def strip (limit : Int) : Nat → Nat → Int → Nat × Int
  | 0, c, e => (c, e)
  | fuel + 1, c, e => if c % 10 = 0 ∧ e < limit then strip limit fuel (c / 10) (e + 1) else (c, e)

/-- The number in its shortest form, within a context; `none` for an overflow. -/
def normalize (ctx : Context) (d : Decimal) : Option Decimal :=
  if d.coefficient = 0 then some ⟨d.negative, 0, 0⟩
  else
    match fix ctx d with
    | none => none
    | some f =>
      if f.coefficient = 0 then some ⟨f.negative, 0, 0⟩
      else
        let stripped := strip ctx.emax (digits f.coefficient).length f.coefficient f.exponent
        some ⟨f.negative, stripped.1, stripped.2⟩

/-! Texts. -/

def signed (n : Int) : List Char := (if n < 0 then '-' else '+') :: digits n.natAbs

/-- The digits with a point at a place. -/
def pointed (whole : List Char) (place : Int) : List Char :=
  if place ≤ 0 then '0' :: '.' :: (List.replicate (-place).toNat '0' ++ whole)
  else if (whole.length : Int) ≤ place then whole ++ List.replicate (place - whole.length).toNat '0'
  else whole.take place.toNat ++ '.' :: whole.drop place.toNat

/-- The number in scientific notation, without an exponent where the point is near. -/
def chars (d : Decimal) : List Char :=
  let whole := digits d.coefficient
  let left : Int := d.exponent + whole.length
  let place : Int := if d.exponent ≤ 0 ∧ -6 < left then left else 1
  (if d.negative then ['-'] else []) ++ (pointed whole place ++
    if left = place then [] else 'E' :: signed (left - place))

def text (d : Decimal) : String := String.ofList d.chars

def readSign : List Char → Bool × List Char
  | '-' :: cs => (true, cs)
  | '+' :: cs => (false, cs)
  | cs => (false, cs)

def readDigits (cs : List Char) : Option Nat :=
  if cs ≠ [] ∧ cs.all Char.isDigit = true then some (Nat.ofDigitChars 10 cs 0) else none

def readExponent : List Char → Option Int
  | [] => some 0
  | _ :: cs => (readDigits (readSign cs).2).map fun n => if (readSign cs).1 then -n else n

/-- Whether a character belongs to the part before the exponent. -/
def inMantissa (c : Char) : Bool := c ≠ 'E' && c ≠ 'e'

/-- The digits before the point and those after it. -/
def readMantissa (cs : List Char) : List Char × List Char :=
  (cs.takeWhile (· ≠ '.'), (cs.dropWhile (· ≠ '.')).drop 1)

/-- The number that a text writes in decimal or scientific notation. -/
def ofChars (cs : List Char) : Option Decimal :=
  let unsigned := (readSign cs).2
  let parts := readMantissa (unsigned.takeWhile inMantissa)
  match readDigits (parts.1 ++ parts.2), readExponent (unsigned.dropWhile inMantissa) with
  | some c, some e => some ⟨(readSign cs).1, c, e - parts.2.length⟩
  | _, _ => none

def ofText (text : String) : Option Decimal := ofChars text.toList

/-! A text reads as the number it was written for. -/

variable {c : Nat} {cs whole : List Char}

theorem digits_digit {x : Char} (h : x ∈ digits c) : x.isDigit = true :=
  Nat.isDigit_of_mem_toDigits (by decide) (by decide) h

theorem digits_ne_nil : digits c ≠ [] := Nat.toDigits_ne_nil

theorem digits_value : Nat.ofDigitChars 10 (digits c) 0 = c := Nat.ofDigitChars_ten_toDigits

theorem isDigit_ne {x y : Char} (h : x.isDigit = true) (hy : y.isDigit = false) : x ≠ y := by
  rintro rfl
  rw [h] at hy
  cases hy

theorem readSign_digit {x : Char} (hx : x.isDigit = true) : readSign (x :: cs) = (false, x :: cs) := by
  unfold readSign
  split
  · next heq =>
    cases heq
    cases hx
  · next heq =>
    cases heq
    cases hx
  · rfl

theorem readDigits_ok (hne : cs ≠ []) (h : ∀ x ∈ cs, x.isDigit = true) :
    readDigits cs = some (Nat.ofDigitChars 10 cs 0) := if_pos ⟨hne, List.all_eq_true.mpr h⟩

theorem ofDigitChars_zeros {n : Nat} : Nat.ofDigitChars 10 (List.replicate n '0' ++ cs) 0 =
    Nat.ofDigitChars 10 cs 0 := by
  rw [Nat.ofDigitChars_append, Nat.ofDigitChars_replicate_zero, Nat.mul_zero]

theorem readExponent_signed (n : Int) : readExponent ('E' :: signed n) = some n := by
  have hread : readDigits (digits n.natAbs) = some n.natAbs := by
    rw [readDigits_ok digits_ne_nil fun x => digits_digit, digits_value]
  unfold readExponent signed
  by_cases hn : n < 0
  · rw [if_pos hn]
    simp only [readSign, hread, if_true]
    exact congrArg some (by dsimp only; omega)
  · rw [if_neg hn]
    simp only [readSign, hread, Bool.false_eq_true, if_false]
    exact congrArg some (by dsimp only; omega)

/-- What comes up to a stop is read up to the stop. -/
theorem takeWhile_stop {p : Char → Bool} {rest : List Char} (h : ∀ x ∈ cs, p x = true)
    (hrest : ∀ x ∈ rest.head?, p x = false) :
    (cs ++ rest).takeWhile p = cs ∧ (cs ++ rest).dropWhile p = rest := by
  induction cs with
  | nil =>
    cases rest with
    | nil => exact ⟨rfl, rfl⟩
    | cons x rest =>
      have hx := hrest x rfl
      exact ⟨List.takeWhile_cons_of_neg (by simp [hx]), List.dropWhile_cons_of_neg (by simp [hx])⟩
  | cons x cs ih =>
    rw [List.forall_mem_cons] at h
    obtain ⟨htake, hdrop⟩ := ih h.2
    rw [List.cons_append, List.takeWhile_cons_of_pos h.1, List.dropWhile_cons_of_pos h.1, htake, hdrop]
    exact ⟨rfl, rfl⟩

theorem readMantissa_point {part : List Char} (h : ∀ x ∈ whole, x.isDigit = true) :
    readMantissa (whole ++ '.' :: part) = (whole, part) := by
  have hstop := @takeWhile_stop whole (fun x => decide (x ≠ '.')) ('.' :: part)
    (fun x hx => decide_eq_true (isDigit_ne (h x hx) rfl)) (by simp)
  rw [readMantissa, hstop.1, hstop.2]
  rfl

theorem readMantissa_whole (h : ∀ x ∈ whole, x.isDigit = true) : readMantissa whole = (whole, []) := by
  have hstop := @takeWhile_stop whole (fun x => decide (x ≠ '.')) []
    (fun x hx => decide_eq_true (isDigit_ne (h x hx) rfl)) (by simp)
  rw [List.append_nil] at hstop
  rw [readMantissa, hstop.1, hstop.2]
  rfl

/-- A pointed number starts with a digit, and has no other characters than digits and the point. -/
theorem pointed_chars (hne : whole ≠ []) (h : ∀ x ∈ whole, x.isDigit = true) (place : Int) :
    (∃ x cs, pointed whole place = x :: cs ∧ x.isDigit = true) ∧
      ∀ x ∈ pointed whole place, x.isDigit = true ∨ x = '.' := by
  have hzero : ∀ n, ∀ x ∈ List.replicate n '0', x.isDigit = true := by
    intro n x hx
    rw [List.eq_of_mem_replicate hx]
    rfl
  obtain ⟨y, ys, rfl⟩ := List.exists_cons_of_ne_nil hne
  have hy := h y List.mem_cons_self
  unfold pointed
  split
  · refine ⟨⟨'0', _, rfl, rfl⟩, fun x hx => ?_⟩
    rw [List.mem_cons, List.mem_cons, List.mem_append] at hx
    rcases hx with rfl | rfl | hx | hx
    · exact .inl rfl
    · exact .inr rfl
    · exact .inl (hzero _ x hx)
    · exact .inl (h x hx)
  · next hpos =>
    split
    · refine ⟨⟨y, _, rfl, hy⟩, fun x hx => ?_⟩
      rcases List.mem_append.mp hx with hx | hx
      · exact .inl (h x hx)
      · exact .inl (hzero _ x hx)
    · obtain ⟨n, hn⟩ : ∃ n, place.toNat = n + 1 := ⟨place.toNat - 1, by omega⟩
      rw [hn]
      refine ⟨⟨y, _, rfl, hy⟩, fun x hx => ?_⟩
      rw [List.mem_append, List.mem_cons] at hx
      rcases hx with hx | rfl | hx
      · exact .inl (h x (List.mem_of_mem_take hx))
      · exact .inr rfl
      · exact .inl (h x (List.mem_of_mem_drop hx))

/-- The digits of a pointed number, and how many of them come after the point. -/
theorem readMantissa_pointed (hne : whole ≠ []) (h : ∀ x ∈ whole, x.isDigit = true) {place : Int}
    (hplace : place ≤ whole.length) :
    readDigits ((readMantissa (pointed whole place)).1 ++ (readMantissa (pointed whole place)).2) =
        some (Nat.ofDigitChars 10 whole 0) ∧
      ((readMantissa (pointed whole place)).2.length : Int) = whole.length - place := by
  unfold pointed
  split
  · next hneg =>
    have hparts := @readMantissa_point ['0'] (List.replicate (-place).toNat '0' ++ whole) (by simp)
    rw [List.singleton_append] at hparts
    have hzeros : ['0'] ++ (List.replicate (-place).toNat '0' ++ whole) =
        List.replicate ((-place).toNat + 1) '0' ++ whole := rfl
    rw [hparts, hzeros]
    constructor
    · rw [readDigits_ok (by simp), ofDigitChars_zeros]
      intro x hx
      rcases List.mem_append.mp hx with hx | hx
      · rw [List.eq_of_mem_replicate hx]
        rfl
      · exact h x hx
    · rw [List.length_append, List.length_replicate]
      omega
  · split
    · next hlarge =>
      have hnone : (place - whole.length).toNat = 0 := by omega
      rw [hnone, List.replicate_zero, List.append_nil, readMantissa_whole h]
      dsimp only
      rw [List.append_nil, List.length_nil]
      exact ⟨readDigits_ok hne h, by omega⟩
    · rw [readMantissa_point fun x hx => h x (List.mem_of_mem_take hx)]
      dsimp only
      rw [List.take_append_drop, List.length_drop]
      exact ⟨readDigits_ok hne h, by omega⟩

/-- The text of a number reads as that number. -/
theorem ofChars_chars (d : Decimal) : ofChars d.chars = some d := by
  have hne : digits d.coefficient ≠ [] := digits_ne_nil
  have hdigits : ∀ x ∈ digits d.coefficient, x.isDigit = true := fun x => digits_digit
  have hvalue : Nat.ofDigitChars 10 (digits d.coefficient) 0 = d.coefficient := digits_value
  unfold chars
  generalize digits d.coefficient = whole at hne hdigits hvalue
  have hlength : 0 < whole.length := List.length_pos_of_ne_nil hne
  generalize hleft : d.exponent + (whole.length : Int) = left
  generalize hplace : (if d.exponent ≤ 0 ∧ -6 < left then left else 1) = place
  have hbound : place ≤ whole.length := by
    rw [← hplace]
    split <;> omega
  dsimp only
  rw [hleft, hplace]
  generalize hexp : (if left = place then [] else 'E' :: signed (left - place)) = exponent
  have hread : readExponent exponent = some (left - place) ∧ ∀ x ∈ exponent.head?, inMantissa x = false := by
    rw [← hexp]
    split
    · next heq =>
      exact ⟨congrArg some (by omega), by simp⟩
    · exact ⟨readExponent_signed _, by simp [inMantissa]⟩
  obtain ⟨⟨x, cs, hcons, hx⟩, hchars⟩ := pointed_chars hne hdigits place
  have hin : ∀ x ∈ pointed whole place, inMantissa x = true := by
    intro x hx
    rcases hchars x hx with hx | rfl
    · have hE : x ≠ 'E' := isDigit_ne hx rfl
      have he : x ≠ 'e' := isDigit_ne hx rfl
      simp [inMantissa, hE, he]
    · rfl
  have hsign : readSign ((if d.negative then ['-'] else []) ++ (pointed whole place ++ exponent)) =
      (d.negative, pointed whole place ++ exponent) := by
    cases d.negative with
    | true => rfl
    | false =>
      rw [if_neg Bool.false_ne_true, List.nil_append, hcons, List.cons_append, readSign_digit hx]
  obtain ⟨htake, hdrop⟩ := takeWhile_stop hin hread.2
  obtain ⟨hcoefficient, hafter⟩ := readMantissa_pointed hne hdigits hbound
  unfold ofChars
  simp only [hsign, htake, hdrop, hcoefficient, hread.1, hafter, hvalue]
  exact congrArg some (by cases d; simp only [mk.injEq, true_and]; dsimp only at hleft; omega)

theorem ofText_text (d : Decimal) : ofText d.text = some d := by
  rw [ofText, text, String.toList_ofList, ofChars_chars]

theorem text_injective : Function.Injective text := fun d e h =>
  Option.some.inj ((ofText_text d).symm.trans (h ▸ ofText_text e))

end Decimal
