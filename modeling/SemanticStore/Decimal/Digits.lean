/-!
# Decimal digits

Natural numbers and integers as lists of decimal digits, and back.
-/

namespace SemanticStore.Decimal

/-- The value of an ASCII digit. -/
def digit? (c : Char) : Option Nat :=
  if '0' ≤ c && c ≤ '9' then some (c.toNat - '0'.toNat) else none

/-- The ASCII digit of a value below ten. -/
def digitChar (d : Nat) : Char := Char.ofNat ('0'.toNat + d)

/-- The number whose digits follow those of `acc`. -/
def ofDigits (acc : Nat) (digits : List Nat) : Nat :=
  digits.foldl (fun n d => n * 10 + d) acc

/-- The digits of a natural number in front of `tail`. -/
def natCharsOnto (n : Nat) (tail : List Char) : List Char :=
  if n < 10 then digitChar n :: tail
  else natCharsOnto (n / 10) (digitChar (n % 10) :: tail)
termination_by n
decreasing_by omega

/-- The decimal text of a natural number. -/
def natChars (n : Nat) : List Char := natCharsOnto n []

/-- The decimal text of an integer, with a minus sign in front of a negative one. -/
def intChars : Int → List Char
  | .ofNat n => natChars n
  | .negSucc n => '-' :: natChars (n + 1)

/-- The decimal text of a natural number, with zeros in front up to the given width. -/
def paddedChars (width n : Nat) : List Char :=
  let digits := natChars n
  List.replicate (width - digits.length) '0' ++ digits

/-- The leading ASCII digits of a text, and what follows them. -/
def spanDigits : List Char → List Nat × List Char
  | [] => ([], [])
  | c :: rest =>
      match digit? c with
      | some d => let (ds, rest') := spanDigits rest; (d :: ds, rest')
      | none => ([], c :: rest)

end SemanticStore.Decimal
