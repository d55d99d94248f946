import SemanticStore.Embedder.Basic
import SemanticStore.Text.Casing

/-!
# The trigram embedder

Works without any service. Words are counted, and each word adds to hashed components: the square
root of its count for every three characters in a row, and its count for the word as a whole. Words
are visited in the order of their code points, so an embedding only depends on how often each word
occurs.
-/

namespace SemanticStore.Trigram

/-- Words that say little about a text. -/
def stopWords : List String :=
  ["the", "is", "at", "which", "on", "a", "an", "as", "are", "was", "were", "for", "to", "of",
   "in", "and", "or", "but", "with", "by", "from", "this", "that", "be", "have", "has", "had",
   "it", "its", "their", "they", "them"]

/-- A word counts if it is longer than two bytes and no stop word. -/
def counts (word : String) : Bool :=
  !stopWords.contains word && 2 < word.utf8ByteSize

/-- The words of a text that count, in lower case. -/
def wordsOf (text : String) : List String :=
  ((Text.words (Text.lowercase text.toList)).map String.ofList).filter counts

/-- How often each word occurs in a list where equal words stand together. -/
def tally : List String → List (String × Nat)
  | [] => []
  | w :: rest =>
      match tally rest with
      | (w', n) :: more => if w = w' then (w', n + 1) :: more else (w, 1) :: (w', n) :: more
      | [] => [(w, 1)]

/-- The words with their counts, in the order of their code points. -/
def frequencies (words : List String) : List (String × Nat) :=
  tally (words.mergeSort fun a b => ¬ b < a)

/-- A polynomial in the bytes of a text, modulo `2 ^ 64`. -/
def hash (multiplier : UInt64) (text : String) : UInt64 :=
  text.toUTF8.toList.foldl (fun h b => h * multiplier + b.toUInt64) 0

/-- Every three characters in a row. -/
def trigrams : List Char → List (List Char)
  | a :: b :: c :: rest => [a, b, c] :: trigrams (b :: c :: rest)
  | _ => []

/-- What a word that occurs `n` times adds, by hash: its trigrams, then the word itself. -/
def contributions (word : String) (n : Nat) : List (UInt64 × Scalar) :=
  (trigrams word.toList).map (fun t => (hash 37 (String.ofList t), (Scalar.ofNat n).sqrt))
    ++ [(hash 31 word, Scalar.ofNat n)]

/-- Adds each contribution to the component its hash falls on. -/
def accumulate (dimensions : Nat) (parts : List (UInt64 × Scalar)) : Embedding :=
  (parts.foldl (fun v p => v.modify (p.1.toNat % dimensions) (· + p.2))
    (Array.replicate dimensions Scalar.zero)).toList

def embed (dimensions : Nat) (normalized : Bool) (text : String) : Embedding :=
  let parts := (frequencies (wordsOf text)).flatMap fun wn => contributions wn.1 wn.2
  let v := accumulate dimensions parts
  if normalized then v.normalize else v

/-- The embedder itself; it never fails. -/
def embedder (dimensions : Nat) (normalized : Bool) : Embedder where
  provider := "trigram"
  model := "trigram-v1"
  dimensions := dimensions
  answer _ texts := .ok (texts.map (embed dimensions normalized))

end SemanticStore.Trigram
