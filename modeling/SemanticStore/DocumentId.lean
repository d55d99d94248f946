import SemanticStore.Document

/-!
# Random ids

The id of a document that is given none: 128 random bits, six of them fixed to mark a random
identifier of version 4, in five groups of hexadecimal digits.
-/

namespace SemanticStore

namespace DocumentId

/-- The lower-case hexadecimal digits of a word, `n` of them. -/
def hexDigits : Nat → Nat → List Char
  | 0, _ => []
  | n + 1, word => hexDigits n (word / 16) ++ [Nat.digitChar (word % 16)]

/-- Puts the version into the thirteenth digit and the variant into the two highest bits of the
seventeenth. -/
def mark (random : BitVec 128) : BitVec 128 :=
  (random &&& ~~~(0xf000#128 <<< 64) &&& ~~~(0xc#128 <<< 60)) ||| (0x4000#128 <<< 64)
    ||| (0x8#128 <<< 60)

/-- The groups of eight, four, four, four and twelve digits, with hyphens between them. -/
def group (digits : List Char) : List Char :=
  digits.take 8 ++ '-' :: (digits.drop 8).take 4 ++ '-' :: (digits.drop 12).take 4 ++
    '-' :: (digits.drop 16).take 4 ++ '-' :: digits.drop 20

/-- The id made of random bits. -/
def ofRandom (random : BitVec 128) : String :=
  String.ofList (group (hexDigits 32 (mark random).toNat))

end DocumentId

/-- A document that is given its content alone. -/
def Document.withRandomId (random : BitVec 128) (content : String) : Document :=
  ⟨DocumentId.ofRandom random, content, none, none⟩

end SemanticStore
