import SemanticStore.Body
import SemanticStore.Proofs.Json.Raw

/-!
# Stored bodies are read again

* `Body.decode?_encode`: of a body, content and metadata are read as they were written, unless they
  nest deeper than the reader goes; then nothing is read.
* `Body.decode_encode`: a document is read from its body, its id and its embedding.
* `Body.legible_iff`: bodies can be read again whatever they are written for, just if the metadata in
  them nests less deep than the reader goes.
-/

namespace SemanticStore.Body

open Json

/-- Metadata whose objects are sorted and whose numbers are integers. -/
structure Plain (metadata : Option Members) : Prop where
  canonical : ∀ m, metadata = some m → (Json.object m).Canonical
  integral : ∀ m, metadata = some m → (Json.object m).Integral

/-- The members of a body. -/
def members (content : String) (metadata : Option Members) : Members :=
  [("v", .string version), ("content", .string content)] ++
    match metadata with
    | some m => [("metadata", .object m)]
    | none => []

lemma toJson_eq (content : String) (metadata : Option Members) :
    toJson content metadata = .object (members content metadata) := rfl

variable {content : String} {metadata : Option Members}

lemma forall_members {P : Json → Prop} (hs : ∀ s, P (.string s))
    (hm : ∀ m, metadata = some m → P (.object m)) : ∀ kv ∈ members content metadata, P kv.2 := by
  cases metadata with
  | none => simp [members, hs]
  | some m => simp [members, hs, hm]

lemma Plain.integral_toJson (h : Plain metadata) : (toJson content metadata).Integral :=
  .object (forall_members .string h.integral)

lemma ofMembers?_members (content : String) (metadata : Option Members) :
    ofMembers? (members content metadata) = some (content, metadata) := by
  cases metadata <;> simp [members, ofMembers?, valuesOf, metadataOf?]

/-- **A body is read as it was written just if it does not nest deeper than the reader goes.** -/
theorem decode?_encode (h : Plain metadata) : decode? (encode content metadata) =
    if (toJson content metadata).depth ≤ Raw.maxDepth then some (content, metadata) else none := by
  have hvalued : ∀ kv ∈ members content metadata, Raw.Valued kv.2 :=
    forall_members (fun s => Raw.value?_raw (.string s) (.string s)) fun m hm =>
      Raw.value?_raw (h.canonical m hm) (h.integral m hm)
  have hdepth : (toJson content metadata).depth ≤ Raw.maxDepth ↔
      membersDepth (members content metadata) ≤ Raw.maxDepth - 1 :=
    Nat.add_le_add_iff_right (n := 1)
  have hread : decode? (encode content metadata) =
      (Raw.memberValues? (Raw.maxDepth - 1) (memberRaws (members content metadata))).bind
        ofMembers? := by
    unfold decode? encode
    rw [Raw.ofText?_write h.integral_toJson, toJson_eq, raw]
  rw [hread, Raw.memberValues?_memberRaws hvalued]
  by_cases hd : (toJson content metadata).depth ≤ Raw.maxDepth
  · rw [if_pos hd, if_pos (hdepth.mp hd)]
    exact ofMembers?_members content metadata
  · rw [if_neg hd, if_neg (mt hdepth.mpr hd)]
    rfl

/-- **A document is read from what is stored of it**, if its metadata has integers for numbers and
its body does not nest deeper than the reader goes. -/
theorem decode_encode (d : Document) (h : Plain d.metadata)
    (hdepth : (toJson d.content d.metadata).depth ≤ Raw.maxDepth) :
    decode d.id (encode d.content d.metadata) d.embedding = .ok d := by
  unfold decode
  rw [decode?_encode h, if_pos hdepth]

/-- A document whose texts need escapes, whose metadata has the keys of a body, and whose integers
are the least and the greatest. -/
def intricate : Document where
  id := "a \"b\""
  content := "tab\t, nul\x00, bell\x07, delete\x7f, line\n, \\ and \"quotes\", \u00e9, \u2603 and 𝄞"
  metadata := some [
    ("", .null),
    ("\"\\\x1f", .array [.object [], .array [], .bool true, .bool false, .string "\x08\x0c\r/"]),
    ("content", .number (.integer ⟨-0x8000000000000000, by decide, by decide⟩)),
    ("metadata", .object [("v", .string "2")]),
    ("v", .number (.integer ⟨0xffffffffffffffff, by decide, by decide⟩))]
  embedding := some [.one, .negZero]

/-- Document `intricate` is read from what is stored of it. -/
theorem decode_encode_intricate :
    Plain intricate.metadata ∧
    (toJson intricate.content intricate.metadata).depth ≤ Raw.maxDepth ∧
    decode intricate.id (encode intricate.content intricate.metadata) intricate.embedding =
      .ok intricate := by
  have hplain : Plain intricate.metadata := by
    constructor
    · rintro m ⟨⟩
      refine .object (by decide) ?_
      simp only [List.forall_mem_cons]
      refine ⟨.null, .array ?_, .number _, .object (by decide) ?_, .number _, by simp⟩
      · simp only [List.forall_mem_cons]
        exact ⟨.object .nil (by simp), .array (by simp), .bool _, .bool _, .string _, by simp⟩
      · simp only [List.forall_mem_cons]
        exact ⟨.string _, by simp⟩
    · rintro m ⟨⟩
      refine .object ?_
      simp only [List.forall_mem_cons]
      refine ⟨.null, .array ?_, .integer _, .object ?_, .integer _, by simp⟩
      · simp only [List.forall_mem_cons]
        exact ⟨.object (by simp), .array (by simp), .bool _, .bool _, .string _, by simp⟩
      · simp only [List.forall_mem_cons]
        exact ⟨.string _, by simp⟩
  have hdepth : (toJson intricate.content intricate.metadata).depth ≤ Raw.maxDepth := by decide
  exact ⟨hplain, hdepth, decode_encode intricate hplain hdepth⟩

/-! ### Metadata that can be read again -/

/-- Metadata is read from every body that it is written to, also where what is read is written and
read again. -/
def Legible (metadata : Option Members) : Prop :=
  ∃ P : Option Members → Prop, P metadata ∧
    ∀ m, P m → ∃ m', P m' ∧ ∀ content, decode? (encode content m) = some (content, m')

theorem Legible.exists_read (h : Legible metadata) :
    ∃ m, Legible m ∧ ∀ content, decode? (encode content metadata) = some (content, m) := by
  obtain ⟨P, hmetadata, hread⟩ := h
  obtain ⟨m, hm, hcontent⟩ := hread metadata hmetadata
  exact ⟨m, ⟨P, hm, hread⟩, hcontent⟩

/-- A body encloses its metadata in one container. -/
lemma depth_toJson_le (content : String) : (toJson content metadata).depth ≤ Raw.maxDepth ↔
    ∀ m, metadata = some m → (Json.object m).depth < Raw.maxDepth := by
  have hmembers : (toJson content metadata).depth ≤ Raw.maxDepth ↔
      ∀ kv ∈ members content metadata, kv.2.depth ≤ Raw.maxDepth - 1 := depth_object_le
  rw [hmembers]
  constructor
  · rintro h m rfl
    exact Nat.lt_succ_of_le (h ("metadata", .object m) (by simp [members]))
  · intro h
    exact forall_members (P := fun v => v.depth ≤ Raw.maxDepth - 1) (fun s => Nat.zero_le _)
      fun m hm => Nat.le_of_lt_succ (h m hm)

/-- **Metadata with integers for numbers can be read again just if it nests less deep than the
reader goes.** -/
theorem legible_iff (h : Plain metadata) :
    Legible metadata ↔ ∀ m, metadata = some m → (Json.object m).depth < Raw.maxDepth := by
  constructor
  · intro hlegible
    obtain ⟨m, -, hread⟩ := hlegible.exists_read
    rw [← depth_toJson_le ""]
    by_contra hdeep
    have hempty := hread ""
    rw [decode?_encode h, if_neg hdeep] at hempty
    cases hempty
  · intro hshallow
    refine ⟨(· = metadata), rfl, ?_⟩
    rintro _ rfl
    refine ⟨_, rfl, fun content => ?_⟩
    rw [decode?_encode h, if_pos ((depth_toJson_le content).mpr hshallow)]

theorem legible_none : Legible none := by
  have hplain : Plain none := by
    constructor <;> rintro m ⟨⟩
  rw [legible_iff hplain]
  rintro m ⟨⟩

/-- A body with metadata that cannot be read again is not read at all. -/
theorem decode?_of_not_legible (h : Plain metadata) (hn : ¬ Legible metadata) (content : String) :
    decode? (encode content metadata) = none := by
  rw [legible_iff h, ← depth_toJson_le content] at hn
  rw [decode?_encode h, if_neg hn]

/-! ### Arrays in one another -/

def nested : ℕ → Json
  | 0 => .null
  | n + 1 => .array [nested n]

/-- Metadata of `n` arrays in one another. -/
def tower (n : ℕ) : Members := [("k", nested n)]

lemma depth_nested (n : ℕ) : (nested n).depth = n := by
  induction n with
  | zero => rfl
  | succ n ih => simp [nested, depth, itemsDepth, ih]

lemma depth_tower (n : ℕ) : (Json.object (tower n)).depth = n + 1 := by
  simp [tower, depth, membersDepth, depth_nested]

theorem plain_tower (n : ℕ) : Plain (some (tower n)) := by
  have hcanonical (n : ℕ) : (nested n).Canonical := by
    induction n with
    | zero => exact .null
    | succ n ih => exact .array (List.forall_mem_singleton.mpr ih)
  have hintegral (n : ℕ) : (nested n).Integral := by
    induction n with
    | zero => exact .null
    | succ n ih => exact .array (List.forall_mem_singleton.mpr ih)
  constructor
  · rintro m ⟨⟩
    exact .object (List.pairwise_singleton ..) (List.forall_mem_singleton.mpr (hcanonical n))
  · rintro m ⟨⟩
    exact .object (List.forall_mem_singleton.mpr (hintegral n))

/-- The object and the body enclose the arrays, and the reader enters 127 containers. -/
theorem legible_tower (n : ℕ) : Legible (some (tower n)) ↔ n < 126 := by
  rw [legible_iff (plain_tower n)]
  constructor
  · intro h
    have hdepth := h (tower n) rfl
    rw [depth_tower] at hdepth
    exact Nat.lt_of_succ_lt_succ hdepth
  · rintro h m ⟨⟩
    rw [depth_tower]
    exact Nat.succ_lt_succ h

end SemanticStore.Body
