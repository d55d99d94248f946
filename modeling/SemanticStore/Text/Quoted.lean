import SemanticStore.Decimal.Digits
import SemanticStore.Text.Blank

/-!
# Texts in messages

A text is shown in a message between double quotes, with escapes for the quote, the backslash and
everything that cannot be seen: control and format characters, white space other than the blank, and
marks that would combine with the quote.
-/

namespace SemanticStore.Text

/-- The characters that are shown as an escape with their code point: controls, separators, format
characters, combining marks of the common blocks, private use. -/
def hiddenRanges : List (Nat × Nat) :=
  [(0x00, 0x1F), (0x7F, 0xA0), (0xAD, 0xAD), (0x300, 0x36F), (0x483, 0x489), (0x591, 0x5BD),
   (0x5BF, 0x5BF), (0x5C1, 0x5C2), (0x5C4, 0x5C5), (0x5C7, 0x5C7), (0x600, 0x605), (0x610, 0x61A),
   (0x61C, 0x61C), (0x64B, 0x65F), (0x670, 0x670), (0x6D6, 0x6DD), (0x70F, 0x70F), (0x1680, 0x1680),
   (0x180B, 0x180F), (0x1AB0, 0x1ACE), (0x1DC0, 0x1DFF), (0x2000, 0x200F), (0x2028, 0x202F),
   (0x205F, 0x206F), (0x20D0, 0x20F0), (0x3000, 0x3000), (0x302A, 0x302F), (0x3099, 0x309A),
   (0xE000, 0xF8FF), (0xFE00, 0xFE0F), (0xFE20, 0xFE2F), (0xFEFF, 0xFEFF), (0xFFF0, 0xFFFB),
   (0xFFFE, 0xFFFF), (0x1D173, 0x1D17A), (0xE0000, 0x10FFFF)]

/-- The lower-case hexadecimal digits of a number in front of `tail`. -/
def hexOnto (n : Nat) (tail : List Char) : List Char :=
  if n < 16 then Nat.digitChar n :: tail
  else hexOnto (n / 16) (Nat.digitChar (n % 16) :: tail)
termination_by n
decreasing_by omega

/-- A character between the quotes. -/
def quotedChar (c : Char) : List Char :=
  if c = '"' then ['\\', '"']
  else if c = '\\' then ['\\', '\\']
  else if c = '\n' then ['\\', 'n']
  else if c = '\r' then ['\\', 'r']
  else if c = '\t' then ['\\', 't']
  else if c = '\x00' then ['\\', '0']
  else if inRanges hiddenRanges c.toNat then
    '\\' :: 'u' :: '{' :: hexOnto c.toNat ['\x7d']
  else [c]

/-- A text as it is shown in a message. -/
def quoted (s : String) : String :=
  String.ofList ('"' :: s.toList.flatMap quotedChar ++ ['"'])

end SemanticStore.Text
