import SemanticStore.Proofs.Json.Grammar
import SemanticStore.Proofs.Json.Value

/-!
# The tokens of a written value

`Json.tokens` are the tokens of the text of a value, and the text spells them (`Token.spelled_chars`). One
lemma for each way of writing: strings (`Token.spelled_quote`), integers (`Token.word_intChars`), and
from these containers.
-/

namespace SemanticStore.Json

open Decimal

/-! ### What is written -/

/-- A character of a string as it is read: those with `\u` escapes are units. -/
def piece (c : Char) : Piece :=
  if c.toNat < 0x20 ∧ c ∉ ['\x08', '\x0c', '\n', '\r', '\t'] then .unit c.toNat else .char c

/-- A text as it is read from its quoted string. -/
def pieces (s : String) : Quoted := s.toList.map piece

/-- The numeral a number is written as. -/
def numeral : JsonNumber → Numeral
  | .integer n => .ofInt n.val
  | .real x => (Numeral.ofChars? (doubleChars x)).getD (.ofInt 0)

mutual

/-- The tokens of the text of a value. -/
def tokens : Json → List Token
  | null => [.null]
  | bool b => [.bool b]
  | number n => [.number (numeral n)]
  | string s => [.string (pieces s)]
  | array items => .arrayOpen :: itemTokens items
  | object members => .objectOpen :: memberTokens members

def itemTokens : List Json → List Token
  | [] => [.arrayClose]
  | [v] => tokens v ++ [.arrayClose]
  | v :: w :: rest => tokens v ++ .comma :: itemTokens (w :: rest)

def memberTokens : List (String × Json) → List Token
  | [] => [.objectClose]
  | [(k, v)] => .string (pieces k) :: .colon :: (tokens v ++ [.objectClose])
  | (k, v) :: kv :: rest =>
      .string (pieces k) :: .colon :: (tokens v ++ .comma :: memberTokens (kv :: rest))

end

/-! ### The text of a value spells its tokens -/

namespace Token

variable {ts : List Token} {s : List Char}

lemma hexDigit?_hexChar {d : ℕ} (h : d < 16) : hexDigit? (hexChar d) = some d := by
  have : ∀ d < 16, hexDigit? (hexChar d) = some d := by decide
  exact this d h

lemma spells_unit {n : ℕ} (hn : n < 0x20) {q : Quoted} (h : q.Spells s) :
    Quoted.Spells (.unit n :: q)
      ('\\' :: 'u' :: (['0', '0', hexChar (n / 16), hexChar (n % 16)] ++ s)) := by
  have hvalue : ofHexDigits 0 [0, 0, n / 16, n % 16] = n := by
    simp [ofHexDigits]
    omega
  have hdigits : List.Forall₂ (fun c d => hexDigit? c = some d)
      ['0', '0', hexChar (n / 16), hexChar (n % 16)] [0, 0, n / 16, n % 16] :=
    .cons rfl (.cons rfl (.cons (hexDigit?_hexChar (by omega))
      (.cons (hexDigit?_hexChar (by omega)) .nil)))
  have hunit := Quoted.Spells.unit rfl hdigits h
  rwa [hvalue] at hunit

lemma spells_escapeChar (c : Char) {q : Quoted} (h : q.Spells s) :
    Quoted.Spells (piece c :: q) (escapeChar c ++ s) := by
  by_cases hshort : c ∈ ['"', '\\', '\x08', '\x0c', '\n', '\r', '\t']
  · -- one of the short escapes
    simp only [List.mem_cons, List.not_mem_nil, or_false] at hshort
    rcases hshort with rfl | rfl | rfl | rfl | rfl | rfl | rfl <;> exact .escape rfl h
  · simp only [List.mem_cons, List.not_mem_nil, or_false, not_or] at hshort
    obtain ⟨hquote, hback, hb, hf, hn, hr, ht⟩ := hshort
    unfold escapeChar piece
    rw [if_neg hquote, if_neg hback, if_neg hb, if_neg hf, if_neg hn, if_neg hr, if_neg ht]
    by_cases hcontrol : c.toNat < 0x20
    · rw [if_pos hcontrol, if_pos ⟨hcontrol, by simp [hb, hf, hn, hr, ht]⟩]
      exact spells_unit hcontrol h
    · rw [if_neg hcontrol, if_neg fun h => hcontrol h.1]
      exact .char hquote hback (not_lt.mp hcontrol) h

/-- **A quoted string is one token.** -/
theorem spelled_quote (text : String) (h : Spelled ts s) :
    Spelled (.string (pieces text) :: ts) (quote text ++ s) := by
  have hbody : ∀ l : List Char, Quoted.Spells (l.map piece) (l.flatMap escapeChar) := by
    intro l
    induction l with
    | nil => exact .nil
    | cons c l ih => exact spells_escapeChar c ih
  have hquote : quote text ++ s = '"' :: (text.toList.flatMap escapeChar ++ '"' :: s) := by
    simp [quote]
  rw [hquote]
  exact .string (hbody text.toList) h

lemma word_intChars (n : ℤ) : Word (.number (.ofInt n)) (intChars n) :=
  .number (Numeral.ofChars?_eq_some_iff.mp (Numeral.ofChars?_intChars n))

/-- In front of what does not go on with a letter, a digit or a sign, the text of a value spells the
tokens of the value. -/
def Written (v : Json) : Prop := ∀ (ts : List Token) (s : List Char), NoWordFirst s →
  Spelled ts s → Spelled (v.tokens ++ ts) (v.chars ++ s)

lemma spelled_itemChars {items : List Json} (h : ∀ v ∈ items, Written v) (hs : Spelled ts s) :
    Spelled (itemTokens items ++ ts) (itemChars items ++ s) := by
  have hclose : Spelled (.arrayClose :: ts) (']' :: s) := .mark rfl hs
  induction items with
  | nil => exact hclose
  | cons v items ih =>
    obtain ⟨hv, hitems⟩ := List.forall_mem_cons.mp h
    cases items with
    | nil =>
      rw [itemTokens, itemChars, List.append_assoc, List.append_assoc]
      exact hv _ _ (noWordFirst_cons rfl) hclose
    | cons w items =>
      rw [itemTokens, itemChars, List.append_assoc, List.append_assoc]
      exact hv _ _ (noWordFirst_cons rfl) (.mark rfl (ih hitems))

lemma spelled_memberChars {members : Members} (h : ∀ kv ∈ members, Written kv.2)
    (hs : Spelled ts s) : Spelled (memberTokens members ++ ts) (memberChars members ++ s) := by
  have hclose : Spelled (.objectClose :: ts) ('\x7d' :: s) := .mark rfl hs
  induction members with
  | nil => exact hclose
  | cons kv members ih =>
    obtain ⟨k, v⟩ := kv
    obtain ⟨hv, hmembers⟩ := List.forall_mem_cons.mp h
    cases members with
    | nil =>
      simp only [memberChars, memberTokens, List.append_assoc, List.cons_append]
      exact spelled_quote k (.mark rfl (hv _ _ (noWordFirst_cons rfl) hclose))
    | cons kw members =>
      simp only [memberChars, memberTokens, List.append_assoc, List.cons_append]
      exact spelled_quote k (.mark rfl (hv _ _ (noWordFirst_cons rfl) (.mark rfl (ih hmembers))))

/-- **The text of a value whose numbers are integers spells the tokens of the value.** -/
theorem spelled_chars {v : Json} (hv : v.Integral) : Written v := by
  induction hv with
  | null => exact fun ts s hend hs => .word .null hend hs
  | bool b =>
    cases b with
    | true => exact fun ts s hend hs => .word .true hend hs
    | false => exact fun ts s hend hs => .word .false hend hs
  | integer n => exact fun ts s hend hs => .word (word_intChars n.val) hend hs
  | string text => exact fun ts s _ hs => spelled_quote text hs
  | array _ ih => exact fun ts s _ hs => .mark rfl (spelled_itemChars ih hs)
  | object _ ih => exact fun ts s _ hs => .mark rfl (spelled_memberChars ih hs)

end Token

end SemanticStore.Json
