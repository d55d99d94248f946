import SemanticStore.Proofs.Json.Denotation
import SemanticStore.Proofs.Json.Token

/-!
# A written value is read again

`Json.raw` is the structure of the text of a value.

* `Raw.ofText?_write`: the text of a value is read as its structure.
* `Raw.value?_raw`: the structure has the value, if the value is canonical with integers for numbers
  and is not deeper than the reader goes; else it has none.
* `Raw.canonical_of_value?`, `Raw.depth_of_value?`: what the reader makes of any text is canonical, and
  no deeper than the reader goes.
-/

namespace SemanticStore.Json

/-! ### The structure of a written value -/

mutual

/-- The structure of the text of a value. -/
def raw : Json → Raw
  | null => .null
  | bool b => .bool b
  | number n => .number (numeral n)
  | string s => .string (pieces s)
  | array items => .array (itemRaws items)
  | object members => .object (memberRaws members)

def itemRaws : List Json → List Raw
  | [] => []
  | v :: rest => raw v :: itemRaws rest

def memberRaws : List (String × Json) → List (Quoted × Raw)
  | [] => []
  | (k, v) :: rest => (pieces k, raw v) :: memberRaws rest

end

/-! ### What is written is read -/

lemma itemTokens_raw {items : List Json} (h : ∀ v ∈ items, v.raw.tokens = v.tokens) :
    Raw.itemTokens (itemRaws items) = itemTokens items := by
  induction items with
  | nil => rfl
  | cons v items ih =>
    obtain ⟨hv, hitems⟩ := List.forall_mem_cons.mp h
    cases items with
    | nil => rw [itemTokens, ← hv]; rfl
    | cons w items => rw [itemTokens, ← hv, ← ih hitems]; rfl

lemma memberTokens_raw {members : Members} (h : ∀ kv ∈ members, kv.2.raw.tokens = kv.2.tokens) :
    Raw.memberTokens (memberRaws members) = memberTokens members := by
  induction members with
  | nil => rfl
  | cons kv members ih =>
    obtain ⟨k, v⟩ := kv
    obtain ⟨hv, hmembers⟩ := List.forall_mem_cons.mp h
    have hv : v.raw.tokens = v.tokens := hv
    cases members with
    | nil => rw [memberTokens, ← hv]; rfl
    | cons kw members => rw [memberTokens, ← hv, ← ih hmembers]; rfl

theorem tokens_raw (v : Json) : v.raw.tokens = v.tokens := by
  induction v with
  | array items ih => exact congrArg (Token.arrayOpen :: ·) (itemTokens_raw ih)
  | object members ih => exact congrArg (Token.objectOpen :: ·) (memberTokens_raw ih)
  | _ => rfl

namespace Raw

theorem ofText?_write {v : Json} (hv : v.Integral) : ofText? v.write = some v.raw := by
  have hspelled := Token.spelled_chars hv [] [] Token.noWordFirst_nil .done
  rw [List.append_nil, List.append_nil] at hspelled
  rw [ofText?_eq_some_iff]
  unfold Spelled write
  rwa [tokens_raw, String.toList_ofList]

/-! ### The value of the structure -/

lemma denotes_map_piece (l : List Char) : Quoted.Denotes (l.map piece) l := by
  induction l with
  | nil => exact .nil
  | cons c l ih =>
    rw [List.map_cons]
    by_cases hc : c.toNat < 0x20 ∧ c ∉ ['\x08', '\x0c', '\n', '\r', '\t']
    · have hpiece : piece c = .unit c.toNat := if_pos hc
      have hlow : c.toNat < 0xD800 := hc.1.trans (by decide)
      have hunit := Quoted.Denotes.unit (.inl hlow) ih
      rwa [Char.ofNat_toNat, ← hpiece] at hunit
    · have hpiece : piece c = .char c := if_neg hc
      rw [hpiece]
      exact .char ih

theorem text?_pieces (s : String) : Quoted.text? (pieces s) = some s :=
  Quoted.text?_eq_some_iff.mpr (denotes_map_piece s.toList)

/-- The structure has the value just if the reader goes so deep. -/
def Valued (v : Json) : Prop :=
  ∀ d, value? d v.raw = if v.depth ≤ d then some v else none

lemma values?_itemRaws {items : List Json} (h : ∀ v ∈ items, Valued v) (d : ℕ) :
    values? d (itemRaws items) = if itemsDepth items ≤ d then some items else none := by
  induction items with
  | nil => simp [itemRaws, values?, itemsDepth]
  | cons v items ih =>
    obtain ⟨hv, hitems⟩ := List.forall_mem_cons.mp h
    simp only [itemRaws, values?, hv d, ih hitems, itemsDepth, max_le_iff]
    by_cases hd : v.depth ≤ d
    · by_cases hds : itemsDepth items ≤ d <;> simp [hd, hds]
    · simp [hd]

lemma memberValues?_memberRaws {members : Members} (h : ∀ kv ∈ members, Valued kv.2) (d : ℕ) :
    memberValues? d (memberRaws members) =
      if membersDepth members ≤ d then some members else none := by
  induction members with
  | nil => simp [memberRaws, memberValues?, membersDepth]
  | cons kv members ih =>
    obtain ⟨hv, hmembers⟩ := List.forall_mem_cons.mp h
    simp only [memberRaws, memberValues?, text?_pieces, hv d, ih hmembers, membersDepth,
      max_le_iff]
    by_cases hd : kv.2.depth ≤ d
    · by_cases hds : membersDepth members ≤ d <;> simp [hd, hds]
    · simp [hd]

/-- **The structure of a canonical value with integers for numbers has that value.** -/
theorem value?_raw {v : Json} (hc : v.Canonical) (hi : v.Integral) : Valued v := by
  induction hi with
  | null => exact fun d => (if_pos (Nat.zero_le d)).symm
  | bool b => exact fun d => (if_pos (Nat.zero_le d)).symm
  | integer n =>
    intro d
    refine Eq.trans ?_ (if_pos (Nat.zero_le d)).symm
    show (Numeral.value? (.ofInt n.val)).map Json.number = _
    rw [Numeral.value?_ofInt]
    rfl
  | string s =>
    intro d
    refine Eq.trans ?_ (if_pos (Nat.zero_le d)).symm
    show (Quoted.text? (pieces s)).map Json.string = _
    rw [text?_pieces]
    rfl
  | @array items _ ih =>
    cases hc with | array hitems =>
    intro d
    cases d with
    | zero => simp [raw, value?, depth]
    | succ d =>
      rw [raw, value?, values?_itemRaws fun v hv => ih v hv (hitems v hv), depth]
      by_cases hd : itemsDepth items ≤ d <;> simp [hd]
  | @object members _ ih =>
    cases hc with | object hsorted hmembers =>
    intro d
    cases d with
    | zero => simp [raw, value?, depth]
    | succ d =>
      rw [raw, value?, memberValues?_memberRaws fun kv hkv => ih kv hkv (hmembers kv hkv), depth]
      by_cases hd : membersDepth members ≤ d <;> simp [hd, Members.ofList_of_sorted hsorted]

/-! ### What is read at all -/

lemma forall_of_values? {P : Json → Prop} {d : ℕ} {items : List Raw} {vs : List Json}
    (h : ∀ r ∈ items, ∀ v, value? d r = some v → P v) (hvs : values? d items = some vs) :
    ∀ v ∈ vs, P v := by
  induction items generalizing vs with
  | nil =>
    obtain rfl := Option.some.inj hvs
    exact fun v hv => absurd hv List.not_mem_nil
  | cons r items ih =>
    obtain ⟨hr, hitems⟩ := List.forall_mem_cons.mp h
    simp only [values?, Option.bind_eq_bind, Option.bind_eq_some_iff, Option.some.injEq] at hvs
    obtain ⟨x, hx, xs, hxs, rfl⟩ := hvs
    exact List.forall_mem_cons.mpr ⟨hr x hx, ih hitems hxs⟩

lemma forall_of_memberValues? {P : Json → Prop} {d : ℕ} {members : List (Quoted × Raw)}
    {ms : List (String × Json)} (h : ∀ kr ∈ members, ∀ v, value? d kr.2 = some v → P v)
    (hms : memberValues? d members = some ms) : ∀ kv ∈ ms, P kv.2 := by
  induction members generalizing ms with
  | nil =>
    obtain rfl := Option.some.inj hms
    exact fun kv hkv => absurd hkv List.not_mem_nil
  | cons kr members ih =>
    obtain ⟨hr, hmembers⟩ := List.forall_mem_cons.mp h
    simp only [memberValues?, Option.bind_eq_bind, Option.bind_eq_some_iff,
      Option.some.injEq] at hms
    obtain ⟨k, hk, x, hx, xs, hxs, rfl⟩ := hms
    exact List.forall_mem_cons.mpr ⟨hr x hx, ih hmembers hxs⟩

/-- What holds of the values that are no containers, and of containers within `d + 1` others if it holds
within `d` others of what is in them, holds of all that is read. -/
theorem value?_induction {motive : ℕ → Json → Prop} (null : ∀ d, motive d .null)
    (bool : ∀ d b, motive d (.bool b)) (number : ∀ d n, motive d (.number n))
    (string : ∀ d s, motive d (.string s))
    (array : ∀ d vs, (∀ v ∈ vs, motive d v) → motive (d + 1) (.array vs))
    (object : ∀ d ms, (∀ kv ∈ ms, motive d kv.2) → motive (d + 1) (.object (Members.ofList ms)))
    (r : Raw) : ∀ (d : ℕ) (v : Json), value? d r = some v → motive d v := by
  induction r with
  | null => rintro d _ ⟨⟩; exact null d
  | bool b => rintro d _ ⟨⟩; exact bool d b
  | number n =>
    intro d v hv
    obtain ⟨x, -, rfl⟩ := Option.map_eq_some_iff.mp hv
    exact number d x
  | string q =>
    intro d v hv
    obtain ⟨s, -, rfl⟩ := Option.map_eq_some_iff.mp hv
    exact string d s
  | array items ih =>
    intro d v hv
    cases d with
    | zero => simp [value?] at hv
    | succ d =>
      rw [value?] at hv
      obtain ⟨vs, hvs, rfl⟩ := Option.map_eq_some_iff.mp hv
      exact array d vs (forall_of_values? (fun r hr => ih r hr d) hvs)
  | object members ih =>
    intro d v hv
    cases d with
    | zero => simp [value?] at hv
    | succ d =>
      rw [value?] at hv
      obtain ⟨ms, hms, rfl⟩ := Option.map_eq_some_iff.mp hv
      exact object d ms (forall_of_memberValues? (fun kr hkr => ih kr hkr d) hms)

/-- **What the reader makes of a text is canonical.** -/
theorem canonical_of_value? (r : Raw) : ∀ (d : ℕ) (v : Json), value? d r = some v → v.Canonical := by
  refine value?_induction (motive := fun _ v => v.Canonical) (fun _ => .null) (fun _ => .bool)
    (fun _ => .number) (fun _ => .string) (fun _ _ => .array) (fun _ ms hms => ?_) r
  exact .object (Members.sorted_ofList ms) fun kv hkv => hms kv (Members.mem_ofList hkv)

/-- **What the reader makes of a text is no deeper than it goes.** -/
theorem depth_of_value? (r : Raw) : ∀ (d : ℕ) (v : Json), value? d r = some v → v.depth ≤ d := by
  refine value?_induction (motive := fun d v => v.depth ≤ d) Nat.zero_le (fun d _ => Nat.zero_le d)
    (fun d _ => Nat.zero_le d) (fun d _ => Nat.zero_le d) (fun _ _ => depth_array_le.mpr)
    (fun _ ms hms => ?_) r
  exact depth_object_le.mpr fun kv hkv => hms kv (Members.mem_ofList hkv)

end Raw

end SemanticStore.Json
