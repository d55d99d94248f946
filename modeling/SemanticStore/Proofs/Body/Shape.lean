import SemanticStore.Body
import SemanticStore.Proofs.Json.Denotation

/-!
# Which texts are bodies

`Body.Says` is said of a text, content and metadata without the reader: the text is one JSON value, an
object or an array, in which version, content and metadata stand as a body has them. Documents are read
from just these texts, and every other text is refused (`Body.decode_shape`).
-/

namespace SemanticStore.Body

open Json

/-- The key is there once, with this value, or not at all. -/
def Once (key : String) (ms : List (String × Json)) : Option Json → Prop
  | none => ∀ kv ∈ ms, kv.1 ≠ key
  | some v => ∃ before behind, ms = before ++ (key, v) :: behind ∧
      ∀ kv ∈ before ++ behind, kv.1 ≠ key

/-- What a value says of the metadata: it is an object, or null. No value says that there are none. -/
inductive Gives : Option Json → Option Members → Prop
  | absent : Gives none none
  | null : Gives (some .null) none
  | object (m : Members) : Gives (some (.object m)) (some m)

/-- The structure of a body with this content and this metadata: an object with these keys among
others, in any order, or an array of the values. -/
inductive Shape : Raw → String → Option Members → Prop
  | object {members : List (Quoted × Raw)} {ms : List (String × Json)} {content : String}
      {value : Option Json} {metadata : Option Members} (h : Raw.DenoteMembers members ms)
      (hversion : Once "v" ms (some (.string "1")))
      (hcontent : Once "content" ms (some (.string content)))
      (hvalue : Once "metadata" ms value) (hmetadata : Gives value metadata) :
      Shape (.object members) content metadata
  | array {items : List Raw} {content : String} {value : Option Json} {metadata : Option Members}
      (h : List.Forall₂ Raw.Denotes items (.string "1" :: .string content :: value.toList))
      (hmetadata : Gives value metadata) : Shape (.array items) content metadata

/-- The text is a body with this content and this metadata. Nothing is said by a text with a surrogate
that stands alone, with a number that is too large, or with more nesting than the reader goes into. -/
def Says (body content : String) (metadata : Option Members) : Prop :=
  ∃ r : Raw, r.Spelled body ∧ r.nesting ≤ Raw.maxDepth ∧ Shape r content metadata

/-- The text is refused with a serialization fault. -/
def Refused (id body : String) (embedding : Option Embedding) : Prop :=
  ∃ message, decode id body embedding = .error (.serialization message)

variable {key content : String} {ms : List (String × Json)} {value : Option Json} {v : Json}
  {metadata : Option Members}

lemma once_iff : Once key ms value ↔ valuesOf key ms = value.toList := by
  unfold valuesOf
  cases value with
  | none => simp [Once]
  | some v =>
    simp only [Once, Option.toList_some, List.map_eq_singleton_iff, List.filter_eq_cons_iff,
      List.filter_eq_nil_iff, List.forall_mem_append, decide_eq_true_eq]
    constructor
    · rintro ⟨before, behind, hms, hbefore, hbehind⟩
      exact ⟨(key, v), ⟨before, behind, hms, hbefore, rfl, hbehind⟩, rfl⟩
    · rintro ⟨⟨k, w⟩, ⟨before, behind, hms, hbefore, rfl, hbehind⟩, rfl⟩
      exact ⟨before, behind, hms, hbefore, hbehind⟩

lemma metadataOf?_eq_some_iff : metadataOf? v = some metadata ↔ Gives (some v) metadata := by
  constructor
  · intro h
    cases v with
    | null => cases h; exact .null
    | object m => cases h; exact .object m
    | _ => cases h
  · intro h
    cases h with
    | null => rfl
    | object m => rfl

lemma ofMembers?_eq_some_iff : ofMembers? ms = some (content, metadata) ↔
    Once "v" ms (some (.string "1")) ∧ Once "content" ms (some (.string content)) ∧
      ∃ value, Once "metadata" ms value ∧ Gives value metadata := by
  simp only [once_iff]
  unfold ofMembers?
  constructor
  · intro h
    split at h
    · rename_i v c hv hc hm
      split at h
      · rename_i hversion
        cases h
        exact ⟨by rw [hv, hversion]; rfl, hc, none, hm, .absent⟩
      · cases h
    · rename_i v c m hv hc hm
      split at h
      · rename_i hversion
        obtain ⟨_, hmetadata, heq⟩ := Option.map_eq_some_iff.mp h
        cases heq
        exact ⟨by rw [hv, hversion]; rfl, hc, some m, hm, metadataOf?_eq_some_iff.mp hmetadata⟩
      · cases h
    · cases h
  · rintro ⟨hv, hc, value, hm, hmetadata⟩
    rw [hv, hc, hm]
    cases hmetadata <;> rfl

lemma ofItems?_eq_some_iff {vs : List Json} : ofItems? vs = some (content, metadata) ↔
    ∃ value : Option Json, vs = .string "1" :: .string content :: value.toList ∧
      Gives value metadata := by
  unfold ofItems?
  constructor
  · intro h
    split at h
    · split at h
      · rename_i hversion
        cases h
        exact ⟨none, by rw [hversion]; rfl, .absent⟩
      · cases h
    · rename_i m
      split at h
      · rename_i hversion
        obtain ⟨_, hmetadata, heq⟩ := Option.map_eq_some_iff.mp h
        cases heq
        exact ⟨some m, by rw [hversion]; rfl, metadataOf?_eq_some_iff.mp hmetadata⟩
      · cases h
    · cases h
  · rintro ⟨value, rfl, hmetadata⟩
    cases hmetadata <;> rfl

/-- **A text is read just if it is a body.** -/
theorem decode?_eq_some_iff {body : String} :
    decode? body = some (content, metadata) ↔ Says body content metadata := by
  unfold decode?
  constructor
  · intro h
    split at h
    · rename_i members hr
      obtain ⟨ms, hms, h⟩ := Option.bind_eq_some_iff.mp h
      obtain ⟨hms, hdepth⟩ := Raw.memberValues?_eq_some_iff.mp hms
      obtain ⟨hversion, hcontent, value, hvalue, hmetadata⟩ := ofMembers?_eq_some_iff.mp h
      exact ⟨.object members, Raw.ofText?_eq_some_iff.mp hr, Nat.succ_le_succ hdepth,
        .object hms hversion hcontent hvalue hmetadata⟩
    · rename_i items hr
      obtain ⟨vs, hvs, h⟩ := Option.bind_eq_some_iff.mp h
      obtain ⟨hvs, hdepth⟩ := Raw.values?_eq_some_iff.mp hvs
      obtain ⟨value, rfl, hmetadata⟩ := ofItems?_eq_some_iff.mp h
      exact ⟨.array items, Raw.ofText?_eq_some_iff.mp hr, Nat.succ_le_succ hdepth,
        .array hvs hmetadata⟩
    · cases h
  · rintro ⟨r, hr, hdepth, hshape⟩
    rw [Raw.ofText?_eq_some_iff.mpr hr]
    cases hshape with
    | object hms hversion hcontent hvalue hmetadata =>
      exact Option.bind_eq_some_iff.mpr
        ⟨_, Raw.memberValues?_eq_some_iff.mpr ⟨hms, Nat.le_of_succ_le_succ hdepth⟩,
          ofMembers?_eq_some_iff.mpr ⟨hversion, hcontent, _, hvalue, hmetadata⟩⟩
    | array hvs hmetadata =>
      exact Option.bind_eq_some_iff.mpr
        ⟨_, Raw.values?_eq_some_iff.mpr ⟨hvs, Nat.le_of_succ_le_succ hdepth⟩,
          ofItems?_eq_some_iff.mpr ⟨_, rfl, hmetadata⟩⟩

/-- Keys may stand in any order, among others, and be escaped. -/
example : Says "\x7b\"content\": \"a\", \"w\": [], \"\\u0076\": \"1\"\x7d" "a" none :=
  decode?_eq_some_iff.mp (by cbv)

lemma decode_eq_ok_iff {id body : String} {embedding : Option Embedding} {d : Document} :
    decode id body embedding = .ok d ↔
      d.id = id ∧ d.embedding = embedding ∧ decode? body = some (d.content, d.metadata) := by
  obtain ⟨docId, content, metadata, docEmbedding⟩ := d
  unfold decode
  cases decode? body with
  | none => simp
  | some read => simp [Prod.ext_iff, eq_comm, and_comm, and_left_comm]

lemma says_or_refused (id body : String) (embedding : Option Embedding) :
    (∃ content metadata, Says body content metadata) ∨ Refused id body embedding := by
  unfold Refused decode
  cases h : decode? body with
  | some read => exact .inl ⟨read.1, read.2, decode?_eq_some_iff.mp h⟩
  | none => exact .inr ⟨_, rfl⟩

lemma exists_version {members : List (Quoted × Raw)} {body : String}
    (hr : (Raw.object members).Spelled body) (h : Says body content metadata) :
    ∃ ms, Raw.DenoteMembers members ms ∧ Once "v" ms (some (.string "1")) := by
  obtain ⟨r, hr', -, hshape⟩ := h
  obtain rfl := Raw.eq_of_spelled hr hr'
  cases hshape with | object hms hversion hcontent hvalue hmetadata =>
  exact ⟨_, hms, hversion⟩

/-- **Documents are read from bodies, with their content and their metadata, and from nothing else.** An
object is refused unless it has the key of the version once, with the version that is written. -/
theorem decode_shape (id body : String) (embedding : Option Embedding) :
    (∀ d, decode id body embedding = .ok d ↔
      d.id = id ∧ d.embedding = embedding ∧ Says body d.content d.metadata) ∧
    ((∃ content metadata, Says body content metadata) ∨ Refused id body embedding) ∧
    ∀ members, (Raw.object members).Spelled body →
      (∃ ms, Raw.DenoteMembers members ms ∧ Once "v" ms (some (.string "1"))) ∨
        Refused id body embedding := by
  refine ⟨fun d => ?_, says_or_refused id body embedding, fun members hr => ?_⟩
  · rw [decode_eq_ok_iff, decode?_eq_some_iff]
  · refine (says_or_refused id body embedding).imp ?_ fun h => h
    rintro ⟨content, metadata, h⟩
    exact exists_version hr h

end SemanticStore.Body
