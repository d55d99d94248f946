import SemanticStore.Decimal.Digits
import SemanticStore.Json.Value

/-!
# JSON numbers as written

`Numeral.ofChars?` is the grammar of numbers and `Numeral.value?` their value. Digits of an integer
that do not fit 64 bits are counted and left out, and so are digits of a fraction; a number with a
fraction or an exponent, or too large for a word, is then the double nearest to the digits kept,
multiplied or divided once by a power of ten.
-/

namespace SemanticStore.Json

open Decimal

/-- The parts of a number as written; each list holds at least one digit. -/
structure Numeral where
  negative : Bool
  whole : List Nat
  fraction : Option (List Nat)
  /-- whether the exponent is negative, and its digits -/
  exponent : Option (Bool × List Nat)
deriving DecidableEq

namespace Numeral

/-! ### Grammar -/

/-- A fraction part, if the text starts with a point, and the rest. -/
def fractionOf? : List Char → Option (Option (List Nat) × List Char)
  | '.' :: rest =>
      match spanDigits rest with
      | ([], _) => none
      | (digits, rest) => some (some digits, rest)
  | rest => some (none, rest)

/-- The digits of an exponent, up to the end of the text. -/
def exponentDigits? (negative : Bool) (text : List Char) : Option (Bool × List Nat) :=
  match spanDigits text with
  | ([], _) => none
  | (digits, []) => some (negative, digits)
  | _ => none

/-- An exponent part up to the end of the text, or nothing if the text is empty. -/
def exponentOf? : List Char → Option (Option (Bool × List Nat))
  | [] => some none
  | mark :: rest =>
      if mark = 'e' ∨ mark = 'E' then
        match rest with
        | '+' :: rest => (exponentDigits? false rest).map some
        | '-' :: rest => (exponentDigits? true rest).map some
        | rest => (exponentDigits? false rest).map some
      else none

/-- The parts of an unsigned number: no zero stands in front of another digit. -/
def unsigned? (negative : Bool) (text : List Char) : Option Numeral :=
  match spanDigits text with
  | ([], _) => none
  | (0 :: _ :: _, _) => none
  | (whole, rest) => do
      let (fraction, rest) ← fractionOf? rest
      let exponent ← exponentOf? rest
      some ⟨negative, whole, fraction, exponent⟩

/-- The number that a whole text writes. -/
def ofChars? : List Char → Option Numeral
  | '-' :: rest => unsigned? true rest
  | text => unsigned? false text

/-! ### Value -/

/-- Appends digits to `n` as long as the result is below `2 ^ 64`; the count is that of the digits
left over. -/
def absorb (n : Nat) : List Nat → Nat × Nat
  | [] => (n, 0)
  | d :: ds => if n * 10 + d < 0x10000000000000000 then absorb (n * 10 + d) ds else (n, ds.length + 1)

/-- `10 ^ k` as a double. -/
def powerOfTen (k : Nat) : Float := Float.ofScientific 1 false k

/-- Divides by `10 ^ k`, in steps of `10 ^ 308` until the rest is smaller or nothing is left. -/
def scaleDown (x : Float) (k : Nat) : Float :=
  if k ≤ 308 then x / powerOfTen k
  else if x == 0.0 then x
  else scaleDown (x / powerOfTen 308) (k - 308)
termination_by k
decreasing_by omega

/-- The double nearest to `significand`, scaled by a power of ten; none if that overflows. -/
def scaled? (significand : Nat) (exponent : Int) : Option Float :=
  let x := Float.ofNat significand
  if exponent < 0 then some (scaleDown x exponent.natAbs)
  else if exponent ≤ 308 then
    let y := x * powerOfTen exponent.toNat
    if y.isInf then none else some y
  else if significand = 0 then some x
  else none

def signed (negative : Bool) (x : Float) : JsonNumber :=
  .real (if negative then -x else x)

/-- The value of a numeral; none if it is too large for a double. -/
def value? (numeral : Numeral) : Option JsonNumber :=
  let (whole, dropped) := absorb 0 numeral.whole
  match numeral.fraction, numeral.exponent, dropped with
  | none, none, 0 =>
      if numeral.negative then
        if whole = 0 then some (.real (-0.0))
        else match WordInt.ofInt? (-(whole : Int)) with
          | some n => some (.integer n)
          | none => some (signed true (Float.ofNat whole))
      else (WordInt.ofInt? whole).map .integer
  | fraction, exponent, dropped =>
      let digits := fraction.getD []
      let (significand, left) := absorb whole digits
      let start : Int := (dropped : Int) - ((digits.length - left : Nat) : Int)
      match exponent with
      | none => (scaled? significand start).map (signed numeral.negative)
      | some (down, exponentDigits) =>
          let e := ofDigits 0 exponentDigits
          if 0x80000000 ≤ e then
            if significand ≠ 0 ∧ ¬ down then none else some (signed numeral.negative 0.0)
          else
            (scaled? significand (if down then start - e else start + e)).map
              (signed numeral.negative)

end Numeral

end SemanticStore.Json
