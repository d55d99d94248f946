import SemanticStore.Decimal.Digits
import SemanticStore.Text.Blank

/-!
# Timestamps

Instants in UTC on the Gregorian calendar, to the nanosecond. They are written in the internet date
format; `Timestamp.parse?` reads that format as written, and `Timestamp.parseLoose?` also with
blanks between its parts, single digits and signed years. An offset is subtracted on reading.
-/

namespace SemanticStore

open Decimal

/-! ### The calendar -/

def isLeapYear (year : Int) : Bool :=
  year % 4 = 0 && (year % 100 ≠ 0 || year % 400 = 0)

def daysInMonth (year : Int) (month : Nat) : Nat :=
  if month = 2 then if isLeapYear year then 29 else 28
  else if month = 4 ∨ month = 6 ∨ month = 9 ∨ month = 11 then 30
  else 31

structure Moment where
  year : Int
  month : Nat
  day : Nat
  hour : Nat
  minute : Nat
  /-- 60 in a leap second -/
  second : Nat
  nanosecond : Nat
deriving DecidableEq

namespace Moment

/-- The moment is on the calendar. -/
def Valid (m : Moment) : Prop :=
  (-262143 ≤ m.year ∧ m.year ≤ 262142) ∧ (1 ≤ m.month ∧ m.month ≤ 12) ∧
    (1 ≤ m.day ∧ m.day ≤ daysInMonth m.year m.month) ∧
    m.hour < 24 ∧ m.minute < 60 ∧ m.second ≤ 60 ∧ m.nanosecond < 1000000000

instance (m : Moment) : Decidable m.Valid := by unfold Valid; infer_instance

def dayBefore (m : Moment) : Moment :=
  if 1 < m.day then { m with day := m.day - 1 }
  else if 1 < m.month then { m with month := m.month - 1, day := daysInMonth m.year (m.month - 1) }
  else { m with year := m.year - 1, month := 12, day := 31 }

def dayAfter (m : Moment) : Moment :=
  if m.day < daysInMonth m.year m.month then { m with day := m.day + 1 }
  else if m.month < 12 then { m with month := m.month + 1, day := 1 }
  else { m with year := m.year + 1, month := 1, day := 1 }

/-- The moment some minutes, less than a day, earlier. -/
def minusMinutes (m : Moment) (minutes : Int) : Moment :=
  let total := (m.hour : Int) * 60 + m.minute - minutes
  let atTime (t : Int) (m : Moment) : Moment :=
    { m with hour := (t / 60).toNat, minute := (t % 60).toNat }
  if total < 0 then atTime (total + 1440) m.dayBefore
  else if 1440 ≤ total then atTime (total - 1440) m.dayAfter
  else atTime total m

end Moment

/-- An instant in UTC. -/
structure Timestamp where
  moment : Moment
  valid : moment.Valid
deriving DecidableEq

namespace Timestamp

/-- The instant of a moment that is on the calendar. -/
def of? (m : Moment) : Option Timestamp :=
  if h : m.Valid then some ⟨m, h⟩ else none

/-! ### Writing -/

/-- Four digits, or a sign and at least four outside of the years 0 to 9999. -/
def yearChars (year : Int) : List Char :=
  if 0 ≤ year ∧ year ≤ 9999 then paddedChars 4 year.toNat
  else (if year < 0 then '-' else '+') :: paddedChars 4 year.natAbs

/-- Nothing, or a point and three, six or nine digits, as few as are needed. -/
def fractionChars (nanosecond : Nat) : List Char :=
  if nanosecond = 0 then []
  else if nanosecond % 1000000 = 0 then '.' :: paddedChars 3 (nanosecond / 1000000)
  else if nanosecond % 1000 = 0 then '.' :: paddedChars 6 (nanosecond / 1000)
  else '.' :: paddedChars 9 nanosecond

/-- The date and time, without an offset. -/
def localChars (m : Moment) : List Char :=
  yearChars m.year ++ '-' :: (paddedChars 2 m.month ++ '-' :: (paddedChars 2 m.day ++
    'T' :: (paddedChars 2 m.hour ++ ':' :: (paddedChars 2 m.minute ++
      ':' :: (paddedChars 2 m.second ++ fractionChars m.nanosecond)))))

/-- With the offset `Z`. -/
def render (t : Timestamp) : String := String.ofList (localChars t.moment ++ ['Z'])

/-- With the offset `+00:00`. -/
def renderNumeric (t : Timestamp) : String :=
  String.ofList (localChars t.moment ++ ['+', '0', '0', ':', '0', '0'])

/-! ### Reading -/

/-- At least `least` and at most `most` digits, and the rest. -/
def number? (least most : Nat) (s : List Char) : Option (Nat × List Char) :=
  let (digits, rest) := spanDigits s
  if digits.length < least then none
  else
    let kept := digits.take most
    let left := (digits.drop most).map digitChar
    some (ofDigits 0 kept, left ++ rest)

def char? (c : Char) : List Char → Option (List Char)
  | [] => none
  | d :: rest => if c = d then some rest else none

/-- A fraction of a second, if the text starts with a point; digits after the ninth are dropped. -/
def fraction? : List Char → Option (Nat × List Char)
  | '.' :: rest =>
      match spanDigits rest with
      | ([], _) => none
      | (digits, rest) =>
          let kept := digits.take 9
          some (ofDigits 0 kept * Nat.pow 10 (9 - kept.length), rest)
  | rest => some (0, rest)

/-- An offset in minutes: `Z`, or a sign and two digits each for hours and minutes, with what
`separator` skips between them. -/
def offset? (separator : List Char → Option (List Char)) (s : List Char) :
    Option (Int × List Char) := do
  let unsigned (rest : List Char) : Option (Nat × List Char) := do
    let (hours, rest) ← number? 2 2 rest
    let rest ← separator rest
    let (minutes, rest) ← number? 2 2 rest
    if minutes < 60 then some (hours * 60 + minutes, rest) else none
  match s with
  | 'Z' :: rest => some (0, rest)
  | 'z' :: rest => some (0, rest)
  | '+' :: rest => (unsigned rest).map fun (n, rest) => ((n : Int), rest)
  | '-' :: rest => (unsigned rest).map fun (n, rest) => (-(n : Int), rest)
  | '−' :: rest => (unsigned rest).map fun (n, rest) => (-(n : Int), rest)
  | _ => none

def timeMark? : List Char → Option (List Char)
  | 'T' :: rest => some rest
  | 't' :: rest => some rest
  | ' ' :: rest => some rest
  | _ => none

/-- The instant at a local time with an offset of less than a day. -/
def atOffset? (m : Moment) (offset : Int) : Option Timestamp :=
  if offset.natAbs < 1440 ∧ m.Valid then of? (m.minusMinutes offset) else none

/-- Reads the internet date format. -/
def parseChars? (s : List Char) : Option Timestamp := do
  let (year, s) ← number? 4 4 s
  let s ← char? '-' s
  let (month, s) ← number? 2 2 s
  let s ← char? '-' s
  let (day, s) ← number? 2 2 s
  let s ← timeMark? s
  let (hour, s) ← number? 2 2 s
  let s ← char? ':' s
  let (minute, s) ← number? 2 2 s
  let s ← char? ':' s
  let (second, s) ← number? 2 2 s
  let (nanosecond, s) ← fraction? s
  let (offset, s) ← offset? (char? ':') s
  if s = [] then atOffset? ⟨year, month, day, hour, minute, second, nanosecond⟩ offset else none

def parse? (text : String) : Option Timestamp := parseChars? text.toList

def skipBlanks (s : List Char) : List Char := s.dropWhile Text.isBlank

/-- A year, after blanks: up to four digits, or a sign and any number of digits. -/
def looseYear? (s : List Char) : Option (Int × List Char) :=
  match skipBlanks s with
  | '-' :: rest => (number? 1 rest.length rest).map fun (n, rest) => (-(n : Int), rest)
  | '+' :: rest => (number? 1 rest.length rest).map fun (n, rest) => ((n : Int), rest)
  | s => (number? 1 4 s).map fun (n, rest) => ((n : Int), rest)

/-- One or two digits, after blanks and before blanks and `mark`. -/
def loosePart? (mark : Char) (s : List Char) : Option (Nat × List Char) := do
  let (n, s) ← number? 1 2 (skipBlanks s)
  let s ← char? mark (skipBlanks s)
  some (n, s)

/-- An offset, or `UTC` in letters of any case. -/
def looseOffset? (s : List Char) : Option (Int × List Char) :=
  match s with
  | a :: b :: c :: rest =>
      if a.toUpper = 'U' ∧ b.toUpper = 'T' ∧ c.toUpper = 'C' then some (0, rest)
      else offset? (fun s => some (s.dropWhile fun c => c = ':' || Text.isBlank c)) s
  | _ => offset? (fun s => some (s.dropWhile fun c => c = ':' || Text.isBlank c)) s

/-- Reads the internet date format with blanks between its parts, single digits, signed years of any
length, and `UTC` as an offset. -/
def parseLooseChars? (s : List Char) : Option Timestamp := do
  let (year, s) ← looseYear? s
  let s ← char? '-' (skipBlanks s)
  let (month, s) ← loosePart? '-' s
  let (day, s) ← number? 1 2 (skipBlanks s)
  let s ← timeMark? s
  let (hour, s) ← loosePart? ':' s
  let (minute, s) ← loosePart? ':' s
  let (second, s) ← number? 1 2 (skipBlanks s)
  let (nanosecond, s) ← fraction? s
  let (offset, s) ← looseOffset? (skipBlanks s)
  if skipBlanks s = [] then
    atOffset? ⟨year, month, day, hour, minute, second, nanosecond⟩ offset
  else none

def parseLoose? (text : String) : Option Timestamp := parseLooseChars? text.toList

end Timestamp

end SemanticStore
