import Mathlib.Data.List.Forall2
import SemanticStore.Proofs.Json.Real
import SemanticStore.Proofs.Json.Structure
import SemanticStore.Proofs.Json.Value

/-!
# The values of JSON texts

What the structure of a text denotes, said without the reader: `Quoted.Denotes` are the characters of
a string, and `Raw.Denotes` the value of a structure, whose numbers are the integers that their numerals
write (`Numeral.IsInteger`) or the doubles that they stand for (`Numeral.IsReal`). It may have none,
where a surrogate stands alone or a number is too large.

A value is made of just those structures that denote it and in which no more containers enclose one
another than the reader goes into (`Raw.value?_eq_some_iff`).
-/

namespace SemanticStore.Json

/-! ### Strings -/

/-- The characters of a string. A unit that is no surrogate is a character, and a high surrogate is one
with the low surrogate behind it. -/
inductive Quoted.Denotes : Quoted → List Char → Prop
  | nil : Denotes [] []
  | char {c : Char} {q : Quoted} {cs : List Char} (h : Denotes q cs) :
      Denotes (.char c :: q) (c :: cs)
  | unit {u : ℕ} {q : Quoted} {cs : List Char} (hu : u < 0xD800 ∨ 0xDFFF < u) (h : Denotes q cs) :
      Denotes (.unit u :: q) (Char.ofNat u :: cs)
  | pair {u v : ℕ} {q : Quoted} {cs : List Char} (hu : 0xD800 ≤ u ∧ u < 0xDC00)
      (hv : 0xDC00 ≤ v ∧ v ≤ 0xDFFF) (h : Denotes q cs) :
      Denotes (.unit u :: .unit v :: q)
        (Char.ofNat (0x10000 + (u - 0xD800) * 0x400 + (v - 0xDC00)) :: cs)

namespace Quoted

variable {u : ℕ} {q : Quoted} {cs : List Char}

lemma chars?_unit (hu : u < 0xD800 ∨ 0xDFFF < u) (q : Quoted) :
    chars? (.unit u :: q) = (chars? q).map (Char.ofNat u :: ·) := by
  have hu : (u < 0xD800 || 0xDFFF < u) = true := by simpa using hu
  rcases q with - | ⟨c | v, q⟩
  · exact if_pos hu
  · exact if_pos hu
  · rw [chars?, if_pos hu]

theorem chars?_eq_some_iff : q.chars? = some cs ↔ q.Denotes cs := by
  constructor
  · intro h
    induction q using chars?.induct generalizing cs with
    | case1 =>
      cases h
      exact .nil
    | case2 c q ih =>
      obtain ⟨cs, hcs, rfl⟩ := Option.map_eq_some_iff.mp h
      exact .char (ih hcs)
    | case3 u v q hu ih =>
      rw [chars?, if_pos hu] at h
      obtain ⟨cs, hcs, rfl⟩ := Option.map_eq_some_iff.mp h
      exact .unit (by simpa using hu) (ih hcs)
    | case4 u v q hu hv ih =>
      rw [chars?, if_neg hu, if_pos hv] at h
      obtain ⟨cs, hcs, rfl⟩ := Option.map_eq_some_iff.mp h
      simp only [Bool.or_eq_true, Bool.and_eq_true, decide_eq_true_eq] at hu hv
      exact .pair (by omega) (by omega) (ih hcs)
    | case5 u v q hu hv =>
      rw [chars?, if_neg hu, if_neg hv] at h
      cases h
    | case6 u q hq hu ih =>
      have hu : u < 0xD800 ∨ 0xDFFF < u := by simpa using hu
      rw [chars?_unit hu] at h
      obtain ⟨cs, hcs, rfl⟩ := Option.map_eq_some_iff.mp h
      exact .unit hu (ih hcs)
    | case7 u q hq hu =>
      rw [chars?, if_neg hu] at h
      · cases h
      · exact hq
  · intro h
    induction h with
    | nil => rfl
    | char _ ih => rw [chars?, ih]; rfl
    | unit hu _ ih => rw [chars?_unit hu, ih]; rfl
    | @pair u v q cs hu hv _ ih =>
      have hnot : ¬ (u < 0xD800 || 0xDFFF < u) = true := by simp; omega
      rw [chars?, if_neg hnot, if_pos (by simp; omega), ih]
      rfl

theorem text?_eq_some_iff {s : String} : q.text? = some s ↔ q.Denotes s.toList := by
  unfold text?
  rw [← chars?_eq_some_iff]
  constructor
  · intro h
    obtain ⟨cs, hcs, rfl⟩ := Option.map_eq_some_iff.mp h
    rw [hcs, String.toList_ofList]
  · intro h
    rw [h, Option.map_some, String.ofList_toList]

end Quoted

namespace Raw

/-! ### Values -/

mutual

/-- The value of a structure. The members in the value of an object are sorted, and of a repeated key
the last value counts. -/
inductive Denotes : Raw → Json → Prop
  | null : Denotes null .null
  | bool (b : Bool) : Denotes (bool b) (.bool b)
  | integer {n : Numeral} {w : WordInt} (h : n.IsInteger w.val) :
      Denotes (number n) (.number (.integer w))
  | real {n : Numeral} {x : Float} (h : n.IsReal x) : Denotes (number n) (.number (.real x))
  | string {q : Quoted} {s : String} (h : q.Denotes s.toList) : Denotes (string q) (.string s)
  | array {items : List Raw} {vs : List Json} (h : List.Forall₂ Denotes items vs) :
      Denotes (array items) (.array vs)
  | object {members : List (Quoted × Raw)} {ms : List (String × Json)} {m : Members}
      (h : DenoteMembers members ms) (sorted : m.Sorted)
      (last : ∀ key, m.get? key = Members.get? ms.reverse key) :
      Denotes (object members) (.object m)

/-- The keys and the values of members, in the order of the text. -/
inductive DenoteMembers : List (Quoted × Raw) → List (String × Json) → Prop
  | nil : DenoteMembers [] []
  | cons {k : Quoted} {r : Raw} {members : List (Quoted × Raw)} {key : String} {v : Json}
      {ms : List (String × Json)} (hk : k.Denotes key.toList) (hv : Denotes r v)
      (h : DenoteMembers members ms) : DenoteMembers ((k, r) :: members) ((key, v) :: ms)

end

lemma denoteMembers_cons_iff {k : Quoted} {r : Raw} {members : List (Quoted × Raw)}
    {ms : List (String × Json)} : DenoteMembers ((k, r) :: members) ms ↔
      ∃ key v rest, k.Denotes key.toList ∧ Denotes r v ∧ DenoteMembers members rest ∧
        (key, v) :: rest = ms := by
  constructor
  · intro h
    cases h with | cons hk hv h =>
    exact ⟨_, _, _, hk, hv, h, rfl⟩
  · rintro ⟨key, v, rest, hk, hv, h, rfl⟩
    exact .cons hk hv h

lemma denotes_object {members : List (Quoted × Raw)} {v : Json} : Denotes (.object members) v ↔
    ∃ ms, DenoteMembers members ms ∧ v = .object (Members.ofList ms) := by
  constructor
  · intro h
    cases h with | @object _ ms m h sorted last =>
    refine ⟨ms, h, congrArg Json.object ?_⟩
    exact Members.eq_of_get? sorted (Members.sorted_ofList ms) fun key =>
      (last key).trans (Members.get?_ofList ms key).symm
  · rintro ⟨ms, h, rfl⟩
    exact .object h (Members.sorted_ofList ms) (Members.get?_ofList ms)

/-! ### Nesting -/

mutual

/-- How many containers enclose one another. -/
def nesting : Raw → ℕ
  | array items => itemNesting items + 1
  | object members => memberNesting members + 1
  | _ => 0

def itemNesting : List Raw → ℕ
  | [] => 0
  | r :: rest => max (nesting r) (itemNesting rest)

def memberNesting : List (Quoted × Raw) → ℕ
  | [] => 0
  | (_, r) :: rest => max (nesting r) (memberNesting rest)

end

/-! ### What is made of a structure -/

/-- The value that is made of the structure is the one it denotes, if it is not too deep. -/
def Read (r : Raw) : Prop := ∀ (d : ℕ) (v : Json), value? d r = some v ↔ Denotes r v ∧ r.nesting ≤ d

variable {d : ℕ}

lemma values?_of_read {items : List Raw} {vs : List Json} (h : ∀ r ∈ items, Read r) :
    values? d items = some vs ↔ List.Forall₂ Denotes items vs ∧ itemNesting items ≤ d := by
  induction items generalizing vs with
  | nil => simp [values?, itemNesting, eq_comm]
  | cons r items ih =>
    obtain ⟨hr, hitems⟩ := List.forall_mem_cons.mp h
    simp only [values?, Option.bind_eq_bind, Option.bind_eq_some_iff, Option.some.injEq, hr d,
      ih hitems, itemNesting, max_le_iff, List.forall₂_cons_left_iff]
    constructor
    · rintro ⟨x, ⟨hx, hd⟩, xs, ⟨hxs, hds⟩, rfl⟩
      exact ⟨⟨x, xs, hx, hxs, rfl⟩, hd, hds⟩
    · rintro ⟨⟨x, xs, hx, hxs, rfl⟩, hd, hds⟩
      exact ⟨x, ⟨hx, hd⟩, xs, ⟨hxs, hds⟩, rfl⟩

lemma memberValues?_of_read {members : List (Quoted × Raw)} {ms : List (String × Json)}
    (h : ∀ kr ∈ members, Read kr.2) :
    memberValues? d members = some ms ↔ DenoteMembers members ms ∧ memberNesting members ≤ d := by
  induction members generalizing ms with
  | nil =>
    constructor
    · rintro ⟨⟩
      exact ⟨.nil, Nat.zero_le d⟩
    · rintro ⟨⟨⟩, -⟩
      rfl
  | cons kr members ih =>
    obtain ⟨k, r⟩ := kr
    obtain ⟨hr, hmembers⟩ := List.forall_mem_cons.mp h
    have hr : Read r := hr
    simp only [memberValues?, Option.bind_eq_bind, Option.bind_eq_some_iff, Option.some.injEq,
      Quoted.text?_eq_some_iff, hr d, ih hmembers, memberNesting, max_le_iff, denoteMembers_cons_iff]
    constructor
    · rintro ⟨key, hk, v, ⟨hv, hd⟩, rest, ⟨hrest, hds⟩, heq⟩
      exact ⟨⟨key, v, rest, hk, hv, hrest, heq⟩, hd, hds⟩
    · rintro ⟨⟨key, v, rest, hk, hv, hrest, heq⟩, hd, hds⟩
      exact ⟨key, hk, v, ⟨hv, hd⟩, rest, ⟨hrest, hds⟩, heq⟩

lemma read_number (n : Numeral) : Read (.number n) := by
  intro d v
  constructor
  · intro h
    obtain ⟨x, hx, rfl⟩ := Option.map_eq_some_iff.mp h
    cases x with
    | integer w => exact ⟨.integer (Numeral.value?_eq_integer_iff.mp hx), Nat.zero_le d⟩
    | real x => exact ⟨.real (Numeral.value?_eq_real_iff.mp hx), Nat.zero_le d⟩
  · rintro ⟨h, -⟩
    cases h with
    | integer h => exact Option.map_eq_some_iff.mpr ⟨_, Numeral.value?_eq_integer_iff.mpr h, rfl⟩
    | real h => exact Option.map_eq_some_iff.mpr ⟨_, Numeral.value?_eq_real_iff.mpr h, rfl⟩

lemma read_string (q : Quoted) : Read (.string q) := by
  intro d v
  constructor
  · intro h
    obtain ⟨s, hs, rfl⟩ := Option.map_eq_some_iff.mp h
    exact ⟨.string (Quoted.text?_eq_some_iff.mp hs), Nat.zero_le d⟩
  · rintro ⟨h, -⟩
    cases h with | string h =>
    exact Option.map_eq_some_iff.mpr ⟨_, Quoted.text?_eq_some_iff.mpr h, rfl⟩

lemma read_array {items : List Raw} (h : ∀ r ∈ items, Read r) : Read (.array items) := by
  intro d v
  cases d with
  | zero => simp [value?, nesting]
  | succ d =>
    rw [value?, Option.map_eq_some_iff, nesting, Nat.add_le_add_iff_right]
    simp only [values?_of_read h]
    constructor
    · rintro ⟨vs, ⟨hvs, hd⟩, rfl⟩
      exact ⟨.array hvs, hd⟩
    · rintro ⟨hv, hd⟩
      cases hv with | array hvs =>
      exact ⟨_, ⟨hvs, hd⟩, rfl⟩

lemma read_object {members : List (Quoted × Raw)} (h : ∀ kr ∈ members, Read kr.2) :
    Read (.object members) := by
  intro d v
  cases d with
  | zero => simp [value?, nesting]
  | succ d =>
    rw [value?, Option.map_eq_some_iff, nesting, Nat.add_le_add_iff_right, denotes_object]
    simp only [memberValues?_of_read h]
    constructor
    · rintro ⟨ms, ⟨hms, hd⟩, rfl⟩
      exact ⟨⟨ms, hms, rfl⟩, hd⟩
    · rintro ⟨⟨ms, hms, rfl⟩, hd⟩
      exact ⟨ms, ⟨hms, hd⟩, rfl⟩

/-- **A value is made of the structures that denote it, unless they are too deep.** -/
theorem value?_eq_some_iff (r : Raw) : Read r := by
  induction r with
  | null =>
    intro d v
    constructor
    · rintro ⟨⟩
      exact ⟨.null, Nat.zero_le d⟩
    · rintro ⟨⟨⟩, -⟩
      rfl
  | bool b =>
    intro d v
    constructor
    · rintro ⟨⟩
      exact ⟨.bool b, Nat.zero_le d⟩
    · rintro ⟨⟨⟩, -⟩
      rfl
  | number n => exact read_number n
  | string q => exact read_string q
  | array items ih => exact read_array ih
  | object members ih => exact read_object ih

theorem values?_eq_some_iff {items : List Raw} {vs : List Json} :
    values? d items = some vs ↔ List.Forall₂ Denotes items vs ∧ itemNesting items ≤ d :=
  values?_of_read fun r _ => value?_eq_some_iff r

theorem memberValues?_eq_some_iff {members : List (Quoted × Raw)} {ms : List (String × Json)} :
    memberValues? d members = some ms ↔ DenoteMembers members ms ∧ memberNesting members ≤ d :=
  memberValues?_of_read fun kr _ => value?_eq_some_iff kr.2

end Raw

end SemanticStore.Json
