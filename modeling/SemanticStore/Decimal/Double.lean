import SemanticStore.Decimal.Digits

/-!
# Doubles as decimal text

The shortest decimal that reads back to a finite double, found by exact arithmetic on its bits: of
the decimals with the fewest digits inside the interval of reals that round to the number, the
nearest one, and of two equally near the one whose last digit is even. `Notation.render` lays it
out.
-/

namespace SemanticStore.Decimal

/-- A finite non-negative double, `mantissa * 2 ^ exponent`. -/
structure Binary where
  mantissa : Nat
  exponent : Int
  /-- the gap to the number below is half the gap to the number above -/
  narrowBelow : Bool

/-- The number a finite double's bits stand for, without its sign. -/
def Binary.ofBits (bits : UInt64) : Binary :=
  let e := ((bits >>> 52) &&& 0x7FF).toNat
  let f := (bits &&& 0xFFFFFFFFFFFFF).toNat
  if e == 0 then ⟨f, -1074, false⟩
  else ⟨0x10000000000000 + f, (e : Int) - 1075, f == 0 && 1 < e⟩

/-- The decimal `digits * 10 ^ exponent`. -/
structure Expansion where
  digits : Nat
  exponent : Int

/-- Compares `a * 10 ^ i` with `n * 2 ^ j`. -/
def compareScaled (a : Nat) (i : Int) (n : Nat) (j : Int) : Ordering :=
  compare (a * Nat.pow 10 i.toNat * Nat.pow 2 (-j).toNat)
    (n * Nat.pow 2 j.toNat * Nat.pow 10 (-i).toNat)

/-- The decimal lies among the reals that round to the number, to nearest with ties to even. -/
def Binary.readsBack (x : Binary) (d : Expansion) : Bool :=
  let low := if x.narrowBelow then 4 * x.mantissa - 1 else 4 * x.mantissa - 2
  let high := 4 * x.mantissa + 2
  let closed := x.mantissa % 2 == 0
  let below := compareScaled d.digits d.exponent low (x.exponent - 2)
  let above := compareScaled d.digits d.exponent high (x.exponent - 2)
  (below == .gt || (closed && below == .eq)) && (above == .lt || (closed && above == .eq))

/-- The least `k` from `start` on, within `fuel` steps, for which the number is below `10 ^ k`. -/
def Binary.scaleFrom (x : Binary) : Nat → Int → Int
  | 0, k => k
  | fuel + 1, k =>
      if compareScaled 1 k x.mantissa x.exponent == .gt then k else scaleFrom x fuel (k + 1)

/-- The least `k` for which a positive number is below `10 ^ k`. -/
def Binary.scale (x : Binary) : Int :=
  let log2 := (x.mantissa.log2 : Int) + x.exponent
  x.scaleFrom 8 (log2 * 30103 / 100000 - 2)

/-- The largest multiple of `10 ^ e` that is at most the number, as a count of steps. -/
def Binary.steps (x : Binary) (e : Int) : Nat :=
  (x.mantissa * Nat.pow 2 x.exponent.toNat * Nat.pow 10 (-e).toNat) /
    (Nat.pow 10 e.toNat * Nat.pow 2 (-x.exponent).toNat)

/-- The decimal on the grid `10 ^ e` that reads back, if there is one. -/
def Binary.onGrid (x : Binary) (e : Int) : Option Expansion :=
  let low : Expansion := ⟨x.steps e, e⟩
  let high : Expansion := ⟨low.digits + 1, e⟩
  match x.readsBack low, x.readsBack high with
  | true, true =>
      match compareScaled (2 * low.digits + 1) e (2 * x.mantissa) x.exponent with
      | .gt => some low
      | .lt => some high
      | .eq => some (if low.digits % 2 == 0 then low else high)
  | true, false => some low
  | false, true => some high
  | false, false => none

def Binary.exact (x : Binary) : Expansion :=
  if 0 ≤ x.exponent then ⟨x.mantissa * Nat.pow 2 x.exponent.toNat, 0⟩
  else ⟨x.mantissa * Nat.pow 5 (-x.exponent).toNat, x.exponent⟩

/-- Moves trailing zeros of the digits into the exponent, at most `fuel` of them. -/
def Expansion.stripZeros : Nat → Expansion → Expansion
  | 0, d => d
  | fuel + 1, d =>
      if d.digits % 10 == 0 && d.digits != 0 then stripZeros fuel ⟨d.digits / 10, d.exponent + 1⟩
      else d

/-- The shortest decimal that reads back to a positive number. -/
def Binary.shortest (x : Binary) : Expansion :=
  let k := x.scale
  let found := (List.range 17).findSome? fun (n : Nat) => x.onGrid (k - 1 - (n : Int))
  (found.getD x.exact).stripZeros 800

/-! ### Layout -/

/-- The layout of a positive decimal. A number whose leading digit has an exponent from -5 to 15 is
written positionally, with a point and at least one digit after it; others with an exponent that
has no plus sign. -/
def Expansion.layout (d : Expansion) : List Char :=
  let digits := natChars d.digits
  let n : Int := digits.length
  let point := n + d.exponent
  if 0 ≤ d.exponent && point ≤ 16 then
    digits ++ List.replicate d.exponent.toNat '0' ++ ['.', '0']
  else if 0 < point && point ≤ 16 then
    digits.take point.toNat ++ '.' :: digits.drop point.toNat
  else if -5 < point && point ≤ 0 then
    '0' :: '.' :: List.replicate (-point).toNat '0' ++ digits
  else
    let tail := 'e' :: intChars (point - 1)
    match digits with
    | [] => tail
    | [d] => d :: tail
    | d :: more => d :: '.' :: more ++ tail

def doubleChars (x : Float) : List Char :=
  let bits := x.toBits
  let magnitude := bits &&& 0x7FFFFFFFFFFFFFFF
  let text := if magnitude == 0 then ['0', '.', '0'] else (Binary.ofBits magnitude).shortest.layout
  if bits == magnitude then text else '-' :: text

end SemanticStore.Decimal
