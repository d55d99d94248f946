import Mathlib.Data.List.Forall2
import Mathlib.Tactic.Common
import SemanticStore.Json.Token
import SemanticStore.Proofs.Json.Numeral

/-!
# The grammar of JSON texts

How tokens are spelled, said without a scan: numbers (`Numeral.Spells`), the words `null`, `true` and
`false`, strings with their escapes (`Quoted.Spells`), and texts, in which white space may stand
between the tokens (`Token.Spelled`). A scan reads the tokens that a text spells, and no others
(`Token.ofChars?_eq_some_iff`).
-/

namespace SemanticStore

/-! ### Digits -/

namespace Decimal

variable {c : Char} {d : ℕ} {ds : List ℕ} {s rest : List Char}

lemma digit?_eq_some (h : digit? c = some d) : d < 10 ∧ digitChar d = c := by
  unfold digit? at h
  split at h
  · rename_i hc
    obtain ⟨hlow, hhigh⟩ : 48 ≤ c.toNat ∧ c.toNat ≤ 57 := by
      simpa [Char.le_def, UInt32.le_iff_toNat_le] using hc
    obtain rfl : c.toNat - 48 = d := Option.some.inj h
    refine ⟨by omega, ?_⟩
    have hvalue : 48 + (c.toNat - 48) = c.toNat := by omega
    show Char.ofNat (48 + (c.toNat - 48)) = c
    rw [hvalue, Char.ofNat_toNat]
  · cases h

/-- One digit or more. -/
def Digits (ds : List ℕ) : Prop := ds ≠ [] ∧ ∀ d ∈ ds, d < 10

lemma map_digitChar_ne {tail : List Char} (hds : Digits ds) (hc : digit? c = none) :
    ds.map digitChar ≠ c :: tail := by
  intro h
  cases ds with
  | nil => cases h
  | cons d ds =>
    obtain ⟨rfl, -⟩ := List.cons.inj h
    rw [digit?_digitChar (hds.2 d (List.mem_cons_self ..))] at hc
    cases hc

theorem spanDigits_eq_iff : spanDigits s = (ds, rest) ↔
    (∀ d ∈ ds, d < 10) ∧ s = ds.map digitChar ++ rest ∧ NoDigitFirst rest := by
  constructor
  · intro h
    induction s generalizing ds with
    | nil =>
      cases h
      exact ⟨by simp, rfl, fun _ _ h => by cases h⟩
    | cons c s ih =>
      unfold spanDigits at h
      cases hc : digit? c with
      | none =>
        rw [hc] at h
        cases h
        exact ⟨by simp, rfl, noDigitFirst_cons hc⟩
      | some d =>
        rw [hc] at h
        cases h
        obtain ⟨hd, rfl⟩ := digit?_eq_some hc
        obtain ⟨hds, hs, hrest⟩ := ih rfl
        refine ⟨List.forall_mem_cons.mpr ⟨hd, hds⟩, ?_, hrest⟩
        rw [List.map_cons, List.cons_append, ← hs]
  · rintro ⟨hds, rfl, hrest⟩
    exact spanDigits_append hds hrest

end Decimal

namespace Json

open Decimal

/-! ### Numbers -/

namespace Numeral

/-- A fraction part, if there is one. -/
def fractionChars : Option (List ℕ) → List Char
  | none => []
  | some ds => '.' :: ds.map digitChar

/-- An exponent part, if there is one. -/
inductive SpellsExponent : Option (Bool × List ℕ) → List Char → Prop
  | none : SpellsExponent none []
  | unsigned {mark : Char} {ds : List ℕ} (hmark : mark = 'e' ∨ mark = 'E') (hds : Digits ds) :
      SpellsExponent (some (false, ds)) (mark :: ds.map digitChar)
  | positive {mark : Char} {ds : List ℕ} (hmark : mark = 'e' ∨ mark = 'E') (hds : Digits ds) :
      SpellsExponent (some (false, ds)) (mark :: '+' :: ds.map digitChar)
  | negative {mark : Char} {ds : List ℕ} (hmark : mark = 'e' ∨ mark = 'E') (hds : Digits ds) :
      SpellsExponent (some (true, ds)) (mark :: '-' :: ds.map digitChar)

/-- The text of a number behind its sign: no zero stands in front of another digit of the whole
part. -/
inductive SpellsUnsigned (n : Numeral) : List Char → Prop
  | intro {e : List Char} (whole : Digits n.whole) (leading : ∀ d ds, n.whole ≠ 0 :: d :: ds)
      (fraction : ∀ ds, n.fraction = some ds → Digits ds) (exponent : SpellsExponent n.exponent e) :
      SpellsUnsigned n (n.whole.map digitChar ++ (fractionChars n.fraction ++ e))

/-- The text of a number. -/
inductive Spells (n : Numeral) : List Char → Prop
  | positive {w : List Char} (hn : n.negative = false) (h : n.SpellsUnsigned w) : Spells n w
  | negative {w : List Char} (hn : n.negative = true) (h : n.SpellsUnsigned w) : Spells n ('-' :: w)

variable {n : Numeral} {negative : Bool} {e : Option (Bool × List ℕ)} {f : Option (List ℕ)}
  {ds : List ℕ} {s rest w : List Char}

lemma exponentDigits?_eq_some_iff {p : Bool × List ℕ} :
    exponentDigits? negative s = some p ↔
      ∃ ds, Digits ds ∧ p = (negative, ds) ∧ s = ds.map digitChar := by
  unfold exponentDigits?
  constructor
  · intro h
    split at h
    · cases h
    · rename_i ds hne hspan
      obtain ⟨hds, rfl, -⟩ := spanDigits_eq_iff.mp hspan
      cases h
      refine ⟨ds, ⟨?_, hds⟩, rfl, List.append_nil _⟩
      rintro rfl
      exact hne rfl
    · cases h
  · rintro ⟨ds, ⟨hne, hds⟩, rfl, rfl⟩
    have hspan : spanDigits (ds.map digitChar) = (ds, []) :=
      spanDigits_eq_iff.mpr ⟨hds, (List.append_nil _).symm, fun _ _ h => by cases h⟩
    rw [hspan]
    cases ds with
    | nil => exact absurd rfl hne
    | cons d ds => rfl

theorem exponentOf?_eq_some_iff : exponentOf? s = some e ↔ SpellsExponent e s := by
  constructor
  · intro h
    unfold exponentOf? at h
    split at h
    · cases h
      exact .none
    · split at h
      · rename_i hmark
        split at h
        · obtain ⟨p, hp, rfl⟩ := Option.map_eq_some_iff.mp h
          obtain ⟨ds, hds, rfl, rfl⟩ := exponentDigits?_eq_some_iff.mp hp
          exact .positive hmark hds
        · obtain ⟨p, hp, rfl⟩ := Option.map_eq_some_iff.mp h
          obtain ⟨ds, hds, rfl, rfl⟩ := exponentDigits?_eq_some_iff.mp hp
          exact .negative hmark hds
        · obtain ⟨p, hp, rfl⟩ := Option.map_eq_some_iff.mp h
          obtain ⟨ds, hds, rfl, rfl⟩ := exponentDigits?_eq_some_iff.mp hp
          exact .unsigned hmark hds
      · cases h
  · intro h
    have hdigits : ∀ {negative ds}, Digits ds →
        exponentDigits? negative (ds.map digitChar) = some (negative, ds) :=
      fun hds => exponentDigits?_eq_some_iff.mpr ⟨_, hds, rfl, rfl⟩
    cases h with
    | none => rfl
    | @unsigned mark ds hmark hds =>
      rw [exponentOf?, if_pos hmark, hdigits hds]
      · rfl
      · exact fun rest => map_digitChar_ne hds rfl
      · exact fun rest => map_digitChar_ne hds rfl
    | positive hmark hds =>
      rw [exponentOf?, if_pos hmark, hdigits hds]
      rfl
    | negative hmark hds =>
      rw [exponentOf?, if_pos hmark, hdigits hds]
      rfl

lemma mark_of_spellsExponent (h : SpellsExponent e s) :
    ∀ c rest, s = c :: rest → c = 'e' ∨ c = 'E' := by
  intro c rest hs
  cases h with
  | none => cases hs
  | unsigned hmark hds => cases hs; exact hmark
  | positive hmark hds => cases hs; exact hmark
  | negative hmark hds => cases hs; exact hmark

lemma fractionOf?_eq_some (h : fractionOf? s = some (f, rest)) :
    s = fractionChars f ++ rest ∧ ∀ ds, f = some ds → Digits ds := by
  unfold fractionOf? at h
  split at h
  · split at h
    · cases h
    · rename_i hne hspan
      obtain ⟨hds, rfl, -⟩ := spanDigits_eq_iff.mp hspan
      cases h
      refine ⟨rfl, ?_⟩
      rintro _ ⟨⟩
      exact ⟨fun hnil => hne hnil, hds⟩
  · cases h
    exact ⟨rfl, fun ds h => by cases h⟩

lemma fractionOf?_append (hf : ∀ ds, f = some ds → Digits ds)
    (hrest : ∀ c tail, rest = c :: tail → c = 'e' ∨ c = 'E') :
    fractionOf? (fractionChars f ++ rest) = some (f, rest) := by
  cases f with
  | none =>
    unfold fractionOf? fractionChars
    split
    · rename_i heq
      rcases hrest _ _ heq with h | h <;> exact absurd h (by decide)
    · rfl
  | some ds =>
    obtain ⟨hne, hds⟩ := hf ds rfl
    have hspan : spanDigits (ds.map digitChar ++ rest) = (ds, rest) := by
      refine spanDigits_eq_iff.mpr ⟨hds, rfl, fun c tail h => ?_⟩
      rcases hrest c tail h with rfl | rfl <;> rfl
    rw [fractionChars, List.cons_append, fractionOf?, hspan]
    cases ds with
    | nil => exact absurd rfl hne
    | cons d ds => rfl

theorem unsigned?_eq_some_iff :
    unsigned? negative w = some n ↔ n.negative = negative ∧ n.SpellsUnsigned w := by
  constructor
  · intro h
    unfold unsigned? at h
    split at h
    · cases h
    · cases h
    · rename_i hne hleading hspan
      simp only [Option.bind_eq_bind, Option.bind_eq_some_iff, Option.some.injEq] at h
      obtain ⟨⟨f, rest⟩, hf, e, he, rfl⟩ := h
      obtain ⟨hds, rfl, -⟩ := spanDigits_eq_iff.mp hspan
      obtain ⟨rfl, hfraction⟩ := fractionOf?_eq_some hf
      refine ⟨rfl, .intro ⟨fun hnil => hne hnil, hds⟩ ?_ hfraction (exponentOf?_eq_some_iff.mp he)⟩
      rintro d ds heq
      exact hleading d ds heq
  · rintro ⟨rfl, h⟩
    cases h with | @intro e whole leading fraction exponent =>
    have hmark := mark_of_spellsExponent exponent
    have hspan : spanDigits (n.whole.map digitChar ++ (fractionChars n.fraction ++ e)) =
        (n.whole, fractionChars n.fraction ++ e) := by
      refine spanDigits_eq_iff.mpr ⟨whole.2, rfl, ?_⟩
      cases n.fraction with
      | none =>
        intro c tail h
        rcases hmark c tail h with rfl | rfl <;> rfl
      | some ds => exact noDigitFirst_cons rfl
    unfold unsigned?
    rw [hspan]
    split
    · rename_i heq
      exact absurd (congrArg Prod.fst heq) whole.1
    · rename_i heq
      exact absurd (congrArg Prod.fst heq) (leading _ _)
    · rename_i heq
      cases heq
      simp [fractionOf?_append fraction hmark, exponentOf?_eq_some_iff.mpr exponent]

lemma ne_minus_of_spellsUnsigned (h : n.SpellsUnsigned w) (rest : List Char) : w ≠ '-' :: rest := by
  cases h with | intro whole leading fraction exponent =>
  intro heq
  obtain ⟨hne, hlt⟩ := whole
  obtain ⟨d, ds, hds⟩ := List.exists_cons_of_ne_nil hne
  rw [hds, List.map_cons, List.cons_append] at heq
  exact digitChar_ne_minus (hlt d (hds ▸ List.mem_cons_self ..)) (List.cons.inj heq).1

/-- **The numbers that are read are those that are spelled.** -/
theorem ofChars?_eq_some_iff : ofChars? w = some n ↔ n.Spells w := by
  constructor
  · intro h
    unfold ofChars? at h
    split at h
    · obtain ⟨hn, h⟩ := unsigned?_eq_some_iff.mp h
      exact .negative hn h
    · obtain ⟨hn, h⟩ := unsigned?_eq_some_iff.mp h
      exact .positive hn h
  · intro h
    cases h with
    | negative hn h => exact unsigned?_eq_some_iff.mpr ⟨hn, h⟩
    | positive hn hw =>
      unfold ofChars?
      split
      · exact absurd rfl (ne_minus_of_spellsUnsigned hw _)
      · exact unsigned?_eq_some_iff.mpr ⟨hn, hw⟩

lemma isWordChar_digitChar {d : ℕ} (hd : d < 10) : Token.isWordChar (digitChar d) = true := by
  have : ∀ d < 10, Token.isWordChar (digitChar d) = true := by decide
  exact this d hd

lemma isWordChar_of_spells (h : n.Spells w) : ∀ c ∈ w, Token.isWordChar c = true := by
  have hdigits : ∀ {ds : List ℕ}, Digits ds → ∀ c ∈ ds.map digitChar, Token.isWordChar c = true := by
    intro ds hds c hc
    obtain ⟨d, hd, rfl⟩ := List.mem_map.mp hc
    exact isWordChar_digitChar (hds.2 d hd)
  have hexponent : ∀ {e s}, SpellsExponent e s → ∀ c ∈ s, Token.isWordChar c = true := by
    intro e s he
    have hmark : ∀ {c : Char}, c = 'e' ∨ c = 'E' → Token.isWordChar c = true := by
      rintro c (rfl | rfl) <;> rfl
    cases he with
    | none => simp
    | unsigned h hds => exact List.forall_mem_cons.mpr ⟨hmark h, hdigits hds⟩
    | positive h hds =>
      exact List.forall_mem_cons.mpr ⟨hmark h, List.forall_mem_cons.mpr ⟨rfl, hdigits hds⟩⟩
    | negative h hds =>
      exact List.forall_mem_cons.mpr ⟨hmark h, List.forall_mem_cons.mpr ⟨rfl, hdigits hds⟩⟩
  have hunsigned : ∀ {s}, n.SpellsUnsigned s → ∀ c ∈ s, Token.isWordChar c = true := by
    intro s hs
    cases hs with | intro whole leading fraction exponent =>
    refine List.forall_mem_append.mpr ⟨hdigits whole, ?_⟩
    refine List.forall_mem_append.mpr ⟨?_, hexponent exponent⟩
    cases hf : n.fraction with
    | none => simp [fractionChars]
    | some ds => exact List.forall_mem_cons.mpr ⟨rfl, hdigits (fraction ds hf)⟩
  cases h with
  | positive hn h => exact hunsigned h
  | negative hn h => exact List.forall_mem_cons.mpr ⟨rfl, hunsigned h⟩

end Numeral

/-! ### Strings -/

/-- The number that hexadecimal digits make with those before them. -/
def ofHexDigits (u : ℕ) (ds : List ℕ) : ℕ := ds.foldl (fun u d => u * 16 + d) u

/-- The text of a string between its quotes: characters as they are, but for quotes, backslashes and
controls, simple escapes, and escapes of four hexadecimal digits. -/
inductive Quoted.Spells : Quoted → List Char → Prop
  | nil : Spells [] []
  | char {c : Char} {q : Quoted} {s : List Char} (hquote : c ≠ '"') (hback : c ≠ '\\')
      (hcontrol : 0x20 ≤ c.toNat) (h : Spells q s) : Spells (.char c :: q) (c :: s)
  | escape {c e : Char} {q : Quoted} {s : List Char} (he : Token.escaped? c = some e)
      (h : Spells q s) : Spells (.char e :: q) ('\\' :: c :: s)
  | unit {cs : List Char} {ds : List ℕ} {q : Quoted} {s : List Char} (hlength : cs.length = 4)
      (hds : List.Forall₂ (fun c d => Token.hexDigit? c = some d) cs ds) (h : Spells q s) :
      Spells (.unit (ofHexDigits 0 ds) :: q) ('\\' :: 'u' :: (cs ++ s))

/-! ### Texts -/

namespace Token

/-- The text does not go on with a letter, a digit or a sign. -/
def NoWordFirst (s : List Char) : Prop := ∀ c rest, s = c :: rest → isWordChar c = false

lemma noWordFirst_nil : NoWordFirst [] := fun _ _ h => by cases h

lemma noWordFirst_cons {c : Char} {rest : List Char} (h : isWordChar c = false) :
    NoWordFirst (c :: rest) := by
  rintro _ _ ⟨⟩
  exact h

/-- The tokens that are words, and their texts. -/
inductive Word : Token → List Char → Prop
  | null : Word null ['n', 'u', 'l', 'l']
  | true : Word (bool true) ['t', 'r', 'u', 'e']
  | false : Word (bool false) ['f', 'a', 'l', 's', 'e']
  | number {n : Numeral} {w : List Char} (h : n.Spells w) : Word (number n) w

/-- The text of tokens, with white space before, between and behind them. A word ends where no letter,
digit or sign follows. -/
inductive Spelled : List Token → List Char → Prop
  | done : Spelled [] []
  | space {c : Char} {ts : List Token} {s : List Char} (hc : isSpace c = true)
      (h : Spelled ts s) : Spelled ts (c :: s)
  | mark {c : Char} {t : Token} {ts : List Token} {s : List Char} (hc : mark? c = some t)
      (h : Spelled ts s) : Spelled (t :: ts) (c :: s)
  | string {q : Quoted} {w : List Char} {ts : List Token} {s : List Char} (hq : q.Spells w)
      (h : Spelled ts s) : Spelled (string q :: ts) ('"' :: (w ++ '"' :: s))
  | word {t : Token} {w : List Char} {ts : List Token} {s : List Char} (hw : Word t w)
      (hend : NoWordFirst s) (h : Spelled ts s) : Spelled (t :: ts) (w ++ s)

variable {done out : List Token} {ts : List Token} {t : Token} {q : Quoted} {c : Char}
  {w s rest : List Char}

theorem ofWord?_eq_some_iff : ofWord? w = some t ↔ Word t w := by
  constructor
  · intro h
    unfold ofWord? at h
    split at h
    · cases h; subst w; exact .null
    · split at h
      · cases h; subst w; exact .true
      · split at h
        · cases h; subst w; exact .false
        · obtain ⟨n, hn, rfl⟩ := Option.map_eq_some_iff.mp h
          exact .number (Numeral.ofChars?_eq_some_iff.mp hn)
  · intro h
    cases h with
    | null => rfl
    | true => rfl
    | false => rfl
    | number h =>
      have hn := Numeral.ofChars?_eq_some_iff.mpr h
      unfold ofWord?
      split
      · subst w; cases hn
      · split
        · subst w; cases hn
        · split
          · subst w; cases hn
          · rw [hn]; rfl

lemma isWordChar_of_word (h : Word t w) : ∀ c ∈ w, isWordChar c = true := by
  cases h with
  | null => exact List.all_eq_true.mp rfl
  | true => exact List.all_eq_true.mp rfl
  | false => exact List.all_eq_true.mp rfl
  | number h => exact Numeral.isWordChar_of_spells h

lemma ne_nil_of_word (h : Word t w) : w ≠ [] := by
  rintro rfl
  have hread := ofWord?_eq_some_iff.mpr h
  cases hread

/-! #### What is spelled is read -/

lemma scan?_cons_of_step {s t : Scan} {d : List Token} {c : Char}
    (h : step? done s c = some (d, t)) : scan? done s (c :: rest) = scan? d t rest := by
  rw [scan?, h]

lemma scan?_mark {c : Char} {t : Token} (h : step? done .between c = some (t :: done, .between)) :
    scan? done .between (c :: rest) = scan? (t :: done) .between rest :=
  scan?_cons_of_step h

lemma step?_between_word {c : Char} (h : isWordChar c = true) :
    step? done .between c = some (done, .word [c]) := by
  have hspace : isSpace c = false := by
    by_contra hs
    rw [Bool.not_eq_false] at hs
    simp only [isSpace, Bool.or_eq_true, decide_eq_true_eq] at hs
    rcases hs with ((rfl | rfl) | rfl) | rfl <;> exact absurd h (by decide)
  have hquote : c ≠ '"' := by
    rintro rfl
    exact absurd h (by decide)
  simp [step?, start?, hspace, hquote, h]

/-- **A word is read as one token, where it ends.** -/
theorem scan?_word {w : List Char} {t : Token} (hw : ∀ c ∈ w, isWordChar c = true)
    (ht : ofWord? w = some t) (hne : w ≠ []) (hrest : NoWordFirst rest) :
    scan? done .between (w ++ rest) = scan? (t :: done) .between rest := by
  have hrun : ∀ (l read : List Char), (∀ c ∈ l, isWordChar c = true) →
      ofWord? (read.reverse ++ l) = some t →
      scan? done (.word read) (l ++ rest) = scan? (t :: done) .between rest := by
    intro l
    induction l with
    | nil =>
      intro read _ ht
      rw [List.append_nil] at ht
      cases rest with
      | nil => simp [scan?, finish?, ht]
      | cons c rest =>
        have hc := hrest c rest rfl
        simp [scan?, step?, hc, ht]
    | cons c l ih =>
      intro read hl ht
      have hc := hl c (List.mem_cons_self ..)
      rw [List.cons_append, scan?_cons_of_step (d := done) (t := .word (c :: read))
        (by simp [step?, hc])]
      refine ih (c :: read) (fun d hd => hl d (List.mem_cons_of_mem _ hd)) ?_
      rwa [List.reverse_cons, List.append_assoc, List.singleton_append]
  obtain ⟨c, l, rfl⟩ := List.exists_cons_of_ne_nil hne
  have hc := hw c (List.mem_cons_self ..)
  rw [List.cons_append, scan?_cons_of_step (step?_between_word hc)]
  exact hrun l [c] (fun d hd => hw d (List.mem_cons_of_mem _ hd)) ht

lemma step?_mark (h : mark? c = some t) : step? done .between c = some (t :: done, .between) := by
  unfold mark? at h
  split at h <;> cases h <;> rfl

lemma scan?_units {cs : List Char} {ds : List ℕ} (read : Quoted) (left u : ℕ)
    (hlength : cs.length = left + 1)
    (hds : List.Forall₂ (fun c d => hexDigit? c = some d) cs ds) :
    scan? done (.unit read u left) (cs ++ rest) =
      scan? done (.quoted (.unit (ofHexDigits u ds) :: read)) rest := by
  induction hds generalizing left u with
  | nil => cases hlength
  | @cons c d cs ds hc hds ih =>
    cases left with
    | zero =>
      obtain rfl : cs = [] := List.length_eq_zero_iff.mp (Nat.succ_inj.mp hlength)
      cases hds
      exact scan?_cons_of_step (by simp [step?, hc, ofHexDigits])
    | succ left =>
      rw [List.cons_append, scan?_cons_of_step (d := done) (t := .unit read (u * 16 + d) left)
        (by simp [step?, hc]), ih left _ (Nat.succ_inj.mp hlength)]
      rfl

theorem scan?_quoted (h : q.Spells w) (read : Quoted) :
    scan? done (.quoted read) (w ++ '"' :: rest) =
      scan? (.string (read.reverse ++ q) :: done) .between rest := by
  induction h generalizing read with
  | nil =>
    rw [List.append_nil]
    exact scan?_cons_of_step rfl
  | @char c q s hquote hback hcontrol _ ih =>
    rw [List.cons_append, scan?_cons_of_step (d := done) (t := .quoted (.char c :: read))
      (by simp [step?, hquote, hback, hcontrol]), ih]
    simp
  | @escape c e q s he _ ih =>
    have hu : c ≠ 'u' := by
      rintro rfl
      cases he
    rw [List.cons_append, scan?_cons_of_step (t := .escape read) rfl, List.cons_append,
      scan?_cons_of_step (d := done) (t := .quoted (.char e :: read)) (by simp [step?, hu, he]), ih]
    simp
  | @unit cs ds q s hlength hds _ ih =>
    rw [List.cons_append, scan?_cons_of_step (t := .escape read) rfl, List.cons_append,
      scan?_cons_of_step (t := .unit read 0 3) rfl, List.append_assoc,
      scan?_units read 3 0 hlength hds, ih]
    simp

theorem scan?_of_spelled (h : Spelled ts s) :
    ∀ done, scan? done .between s = some (done.reverse ++ ts) := by
  induction h with
  | done => exact fun done => by rw [List.append_nil]; rfl
  | @space c ts s hc _ ih =>
    intro done
    rw [scan?_cons_of_step (d := done) (t := .between) (by simp [step?, start?, hc]), ih]
  | mark hc _ ih =>
    intro done
    rw [scan?_mark (step?_mark hc), ih, List.reverse_cons, List.append_assoc]
    rfl
  | string hq _ ih =>
    intro done
    rw [scan?_cons_of_step (t := .quoted []) rfl, scan?_quoted hq, ih, List.reverse_cons,
      List.append_assoc]
    rfl
  | word hw hend _ ih =>
    intro done
    rw [scan?_word (isWordChar_of_word hw) (ofWord?_eq_some_iff.mpr hw) (ne_nil_of_word hw) hend,
      ih, List.reverse_cons, List.append_assoc]
    rfl

/-! #### What is read is spelled -/

/-- The text from where a scan stands, and the tokens that it gives with what has been read of the
present one. -/
def Scan.Spells : Scan → List Token → List Char → Prop
  | .between, ts, s => Spelled ts s
  | .word read, ts, s => ∃ w t rest tail, s = w ++ tail ∧ ts = t :: rest ∧
      Word t (read.reverse ++ w) ∧ NoWordFirst tail ∧ Spelled rest tail
  | .quoted read, ts, s => ∃ (q : Quoted) (w : List Char) (rest : List Token) (tail : List Char),
      s = w ++ '"' :: tail ∧ ts = string (read.reverse ++ q) :: rest ∧ q.Spells w ∧
      Spelled rest tail
  | .escape read, ts, s => ∃ (q : Quoted) (w : List Char) (rest : List Token) (tail : List Char),
      s = w ++ '"' :: tail ∧ ts = string (read.reverse ++ q) :: rest ∧ q.Spells ('\\' :: w) ∧
      Spelled rest tail
  | .unit read u left, ts, s => ∃ (cs : List Char) (ds : List ℕ) (q : Quoted) (w : List Char)
      (rest : List Token) (tail : List Char), s = cs ++ (w ++ '"' :: tail) ∧
      cs.length = left + 1 ∧ List.Forall₂ (fun c d => hexDigit? c = some d) cs ds ∧
      ts = string (read.reverse ++ .unit (ofHexDigits u ds) :: q) :: rest ∧ q.Spells w ∧
      Spelled rest tail

variable {done' : List Token} {state state' : Scan}

lemma spells_start (h : start? done c = some (done', state)) (hs : state.Spells ts s) :
    ∃ us, Spelled us (c :: s) ∧ done.reverse ++ us = done'.reverse ++ ts := by
  unfold start? at h
  split at h
  · rename_i hspace
    cases h
    exact ⟨ts, .space hspace hs, rfl⟩
  · split at h
    · subst c
      cases h
      obtain ⟨q, w, rest, tail, rfl, rfl, hq, hrest⟩ := hs
      exact ⟨_, .string hq hrest, rfl⟩
    · split at h
      · cases h
        obtain ⟨w, t, rest, tail, rfl, rfl, hw, hend, hrest⟩ := hs
        exact ⟨_, .word hw hend hrest, rfl⟩
      · obtain ⟨t, ht, heq⟩ := Option.map_eq_some_iff.mp h
        cases heq
        exact ⟨t :: ts, .mark ht hs, by simp⟩

/-- Before a step, the text is spelled with the character of the step in front. -/
theorem spells_step (h : step? done state c = some (done', state')) (hs : state'.Spells ts s) :
    ∃ us, state.Spells us (c :: s) ∧ done.reverse ++ us = done'.reverse ++ ts := by
  cases state with
  | between => exact spells_start h hs
  | word read =>
    rw [step?] at h
    split at h
    · cases h
      obtain ⟨w, t, rest, tail, rfl, rfl, hw, hend, hrest⟩ := hs
      refine ⟨_, ⟨c :: w, t, rest, tail, rfl, rfl, ?_, hend, hrest⟩, rfl⟩
      simpa using hw
    · rename_i hc
      -- the word ends here, and the character is read as one between tokens
      obtain ⟨t, ht, h⟩ := Option.bind_eq_some_iff.mp h
      obtain ⟨us, hus, heq⟩ := spells_start h hs
      have hend : NoWordFirst (c :: s) := noWordFirst_cons (eq_false_of_ne_true hc)
      refine ⟨t :: us, ⟨[], t, us, c :: s, rfl, rfl, ?_, hend, hus⟩, ?_⟩
      · rw [List.append_nil]
        exact ofWord?_eq_some_iff.mp ht
      · rw [← heq]
        simp
  | quoted read =>
    rw [step?] at h
    split at h
    · subst c
      cases h
      exact ⟨string read.reverse :: ts, ⟨[], [], ts, s, rfl, by simp, .nil, hs⟩, by simp⟩
    · split at h
      · subst c
        cases h
        obtain ⟨q, w, rest, tail, rfl, rfl, hq, hrest⟩ := hs
        exact ⟨_, ⟨q, '\\' :: w, rest, tail, rfl, rfl, hq, hrest⟩, rfl⟩
      · split at h
        · cases h
        · rename_i hquote hback hcontrol
          cases h
          obtain ⟨q, w, rest, tail, rfl, rfl, hq, hrest⟩ := hs
          exact ⟨_, ⟨.char c :: q, c :: w, rest, tail, rfl, by simp,
            .char hquote hback (not_lt.mp hcontrol) hq, hrest⟩, rfl⟩
  | escape read =>
    rw [step?] at h
    split at h
    · subst c
      cases h
      obtain ⟨cs, ds, q, w, rest, tail, rfl, hlength, hds, rfl, hq, hrest⟩ := hs
      exact ⟨_, ⟨.unit (ofHexDigits 0 ds) :: q, 'u' :: (cs ++ w), rest, tail, by simp, rfl,
        .unit hlength hds hq, hrest⟩, rfl⟩
    · obtain ⟨e, he, heq⟩ := Option.map_eq_some_iff.mp h
      cases heq
      obtain ⟨q, w, rest, tail, rfl, rfl, hq, hrest⟩ := hs
      exact ⟨_, ⟨.char e :: q, c :: w, rest, tail, rfl, by simp, .escape he hq, hrest⟩, rfl⟩
  | unit read u left =>
    obtain ⟨d, hd, heq⟩ := Option.map_eq_some_iff.mp h
    cases left with
    | zero =>
      cases heq
      obtain ⟨q, w, rest, tail, rfl, rfl, hq, hrest⟩ := hs
      exact ⟨_, ⟨[c], [d], q, w, rest, tail, rfl, rfl, .cons hd .nil, by simp [ofHexDigits], hq,
        hrest⟩, rfl⟩
    | succ left =>
      cases heq
      obtain ⟨cs, ds, q, w, rest, tail, rfl, hlength, hds, rfl, hq, hrest⟩ := hs
      exact ⟨_, ⟨c :: cs, d :: ds, q, w, rest, tail, rfl, by simp [hlength], .cons hd hds, rfl, hq,
        hrest⟩, rfl⟩

theorem spells_of_scan? (h : scan? done state s = some out) :
    ∃ ts, state.Spells ts s ∧ out = done.reverse ++ ts := by
  induction s generalizing done state with
  | nil =>
    cases state with
    | between =>
      cases h
      exact ⟨[], .done, (List.append_nil _).symm⟩
    | word read =>
      obtain ⟨t, ht, rfl⟩ := Option.map_eq_some_iff.mp h
      refine ⟨[t], ⟨[], t, [], [], rfl, rfl, ?_, noWordFirst_nil, .done⟩, by simp⟩
      rw [List.append_nil]
      exact ofWord?_eq_some_iff.mp ht
    | quoted read => cases h
    | escape read => cases h
    | unit read u left => cases h
  | cons c s ih =>
    unfold scan? at h
    split at h
    · cases h
    · rename_i hstep
      obtain ⟨ts, hts, rfl⟩ := ih h
      obtain ⟨us, hus, heq⟩ := spells_step hstep hts
      exact ⟨us, hus, heq.symm⟩

/-- **The tokens that are read of a text are those that it spells.** -/
theorem ofChars?_eq_some_iff : ofChars? s = some ts ↔ Spelled ts s := by
  constructor
  · intro h
    obtain ⟨us, hus, rfl⟩ := spells_of_scan? h
    exact hus
  · exact fun h => scan?_of_spelled h []

end Token

end Json

end SemanticStore
