import SemanticStore.Proofs.Json.Raw
import SemanticStore.Settings.Store

/-!
# Store settings are read as they are written

A decoder accepts many spellings of the same settings, and one of them is written. Each kind of value
that a field can have is read as it was written: texts, names, natural numbers and truth values, names
of partitions, and JSON values whose numbers are integers.

`StoreSettings.Readable` says which settings a text can have: their numbers are words of 64 bits, and
the options are canonical and not too deep. These settings come back from their text
(`StoreSettings.ofJsonText?_write`), so settings that were read once are read again
(`StoreSettings.reread`). All this is for options whose numbers are integers of 64 bits; any other
number is a double.
-/

namespace SemanticStore

open Json Structured

/-! ### Fields of records -/

namespace Structured

variable {ν α : Type} {fields : List (String × ν)} {names : List String} {name : String} {v : ν}
  {decode : ν → Option α} {default x : α}

lemma forall_of_optional (P : α → Prop) (h : optional fields name decode default = some x)
    (hdefault : P default) (hdecode : ∀ v, decode v = some x → P x) : P x := by
  unfold optional at h
  split at h
  · obtain rfl := Option.some.inj h
    exact hdefault
  · exact hdecode _ h

lemma lookup_eq_none (h : name ∉ fields.map (·.1)) : fields.lookup name = none := by
  rw [List.lookup_eq_none_iff]
  intro kv hkv
  rw [bne_iff_ne]
  rintro rfl
  exact h (List.mem_map_of_mem hkv)

lemma optional_of_mem (hn : (fields.map (·.1)).Nodup) (h : (name, v) ∈ fields) :
    optional fields name decode default = decode v := by
  have hlookup : fields.lookup name = some v := by
    induction fields with
    | nil => cases h
    | cons kv fields ih =>
      rw [List.map_cons, List.nodup_cons] at hn
      rcases List.mem_cons.mp h with rfl | h
      · simp
      · have hne : name ≠ kv.1 := fun heq => hn.1 (List.mem_map.mpr ⟨(name, v), h, heq⟩)
        rw [List.lookup_cons, beq_false_of_ne hne]
        exact ih hn.2 h
  unfold optional
  rw [hlookup]

lemma optional_of_notMem (h : name ∉ fields.map (·.1)) :
    optional fields name decode default = some default := by
  unfold optional
  rw [lookup_eq_none h]

/-- Fields that are all known and different are the fields of their record. -/
lemma known?_eq_self (hn : (fields.map (·.1)).Nodup) (h : ∀ kv ∈ fields, kv.1 ∈ names) :
    known? names fields = some fields := by
  induction fields with
  | nil => rfl
  | cons kv fields ih =>
    rw [List.map_cons, List.nodup_cons] at hn
    obtain ⟨hkv, hfields⟩ := List.forall_mem_cons.mp h
    simp [known?, ih hn.2 hfields, hkv, lookup_eq_none hn.1]

lemma natural?_lt [Structured ν] {n : ℕ} (h : natural? v = some n) : n < 0x10000000000000000 := by
  unfold natural? at h
  obtain ⟨i, -, hi⟩ := Option.bind_eq_some_iff.mp h
  unfold WordInt.toNat? at hi
  have hupper := i.upper
  split at hi
  · obtain rfl := Option.some.inj hi
    omega
  · cases hi

end Structured

/-! ### What is read of a value that was written -/

namespace Json

lemma text?_raw (s : String) : Structured.text? (Json.string s).raw = some s := Raw.text?_pieces s

lemma alternative?_raw (s : String) : Structured.alternative? (Json.string s).raw = some s :=
  Raw.text?_pieces s

lemma bool?_raw (b : Bool) : Structured.bool? (Json.bool b).raw = some b := rfl

lemma integer?_raw (n : WordInt) : Structured.integer? (number (.integer n)).raw = some n := by
  show Raw.integer? (.number (Numeral.ofInt n.val)) = some n
  unfold Raw.integer?
  dsimp only
  rw [Numeral.value?_ofInt]

lemma json?_raw {v : Json} {enclosing : ℕ} (hc : v.Canonical) (hi : v.Integral)
    (hd : v.depth ≤ Raw.maxDepth - enclosing) : Structured.json? enclosing v.raw = some v :=
  (Raw.value?_raw hc hi _).trans (if_pos hd)

/-- The fields of a record that was written. -/
def rawFields (m : List (String × Json)) : List (String × Raw) := m.map fun kv => (kv.1, kv.2.raw)

lemma keys_rawFields (m : List (String × Json)) : (rawFields m).map (·.1) = m.map (·.1) := by
  unfold rawFields
  rw [List.map_map]
  rfl

lemma members?_raw (m : List (String × Json)) :
    Raw.members? (memberRaws m) = some (rawFields m) := by
  induction m with
  | nil => rfl
  | cons kv m ih => simp [memberRaws, rawFields, Raw.members?, Raw.text?_pieces, ih]

section Record

variable {α : Type} {names : List String} {m : List (String × Json)} {name : String} {v : Json}
  {decode : Raw → Option α} {default : α}

theorem fields?_raw (hn : names.Nodup) (h : (m.map (·.1)).Sublist names) :
    Structured.fields? names (object m).raw = some (rawFields m) := by
  have hkeys := keys_rawFields m
  show (Raw.members? (memberRaws m)).bind (known? names) = _
  rw [members?_raw, Option.bind_some]
  refine known?_eq_self (hkeys ▸ hn.sublist h) fun kv hkv => h.subset ?_
  rw [← hkeys]
  exact List.mem_map_of_mem hkv

lemma optional_raw (hn : (m.map (·.1)).Nodup) (h : (name, v) ∈ m) :
    optional (rawFields m) name decode default = decode v.raw :=
  optional_of_mem (keys_rawFields m ▸ hn) (List.mem_map.mpr ⟨(name, v), h, rfl⟩)

lemma optional_raw_of_notMem (h : name ∉ m.map (·.1)) :
    optional (rawFields m) name decode default = some default :=
  optional_of_notMem (keys_rawFields m ▸ h)

end Record

end Json

lemma BackendKind.ofName?_name (b : BackendKind) : ofName? b.name = some b := by
  cases b <;> rfl

lemma Metric.ofName?_name (m : Metric) : ofName? m.name = some m := by
  cases m <;> rfl

/-- **An integer stays an integer, and a text stays a text.** -/
theorem Partition.decode?_toJson (p : Partition) : decode? p.toJson.raw = some p := by
  unfold decode?
  cases p with
  | int n =>
    have hfits : SignedInt.ofInt? n.val = some n := dif_pos ⟨n.lower, n.upper⟩
    have hread : Structured.integer? (toJson (int n)).raw = some n.toWordInt :=
      integer?_raw n.toWordInt
    rw [if_neg (by exact Bool.false_ne_true), hread]
    dsimp only [SignedInt.toWordInt]
    rw [hfits]
    rfl
  | text s =>
    show (Structured.text? (Json.string s).raw).map text = _
    rw [text?_raw]
    rfl

/-! ### Embedder settings -/

namespace EmbedderSettings

variable {s : EmbedderSettings} {enclosing : ℕ} {r : Raw}

/-- Settings that a text can have: their numbers are words, and their options are canonical and not
deeper than a reader goes. -/
structure Readable (enclosing : ℕ) (s : EmbedderSettings) : Prop where
  dimensions : s.dimensions < 0x10000000000000000
  batchSize : s.batchSize < 0x10000000000000000
  canonical : s.options.Canonical
  depth : s.options.depth ≤ Raw.maxDepth - (enclosing + 1)

lemma readable_default : default.Readable 1 := by
  refine ⟨by decide, by decide, .object .nil (by simp), ?_⟩
  show membersDepth [] + 1 ≤ 125
  decide

/-- Settings that are read of a text are such settings. -/
theorem readable_of_decode? (h : decode? enclosing r = some s) : s.Readable enclosing := by
  simp only [decode?, Option.bind_eq_bind, Option.bind_eq_some_iff, Option.some.injEq] at h
  obtain ⟨fields, -, provider, -, model, -, dimensions, hdimensions, normalize, -, batchSize,
    hbatch, options, hoptions, rfl⟩ := h
  constructor
  · exact forall_of_optional (· < 0x10000000000000000) hdimensions (by decide) fun v => natural?_lt
  · exact forall_of_optional (· < 0x10000000000000000) hbatch (by decide) fun v => natural?_lt
  · exact forall_of_optional Canonical hoptions .null fun v => Raw.canonical_of_value? v _ _
  · exact forall_of_optional (·.depth ≤ Raw.maxDepth - (enclosing + 1)) hoptions (Nat.zero_le _)
      fun v => Raw.depth_of_value? v _ _

lemma natJson_eq {n : ℕ} (h : n < 0x10000000000000000) :
    natJson n = .number (.integer ⟨n, by omega, by omega⟩) := by
  unfold natJson Json.ofInt? WordInt.ofInt?
  rw [dif_pos (by omega)]
  rfl

lemma natural?_natJson {n : ℕ} (h : n < 0x10000000000000000) :
    Structured.natural? (natJson n).raw = some n := by
  rw [natJson_eq h]
  unfold Structured.natural?
  rw [integer?_raw]
  simp [WordInt.toNat?]

lemma integral_natJson {n : ℕ} (h : n < 0x10000000000000000) : (natJson n).Integral := by
  rw [natJson_eq h]
  exact .integer _

lemma integral_members (hs : s.Readable enclosing) (hi : s.options.Integral) :
    (Json.object s.members).Integral := by
  refine .object ?_
  simp only [members, List.forall_mem_cons]
  exact ⟨.string _, .string _, integral_natJson hs.dimensions, .bool _,
    integral_natJson hs.batchSize, hi, by simp⟩

/-- **Embedder settings are read as they were written.** -/
theorem decode?_members (hs : s.Readable enclosing) (hi : s.options.Integral) :
    decode? enclosing (Json.object s.members).raw = some s := by
  have hnames : (s.members.map (·.1)).Nodup := by
    show fieldNames.Nodup
    decide
  have hfields : fields? fieldNames (Json.object s.members).raw = some (rawFields s.members) :=
    fields?_raw hnames (List.Sublist.refl _)
  have hprovider : optional (rawFields s.members) "provider" text? default.provider =
      some s.provider := by
    rw [optional_raw hnames (v := .string s.provider) (by simp [members]), text?_raw]
  have hmodel : optional (rawFields s.members) "model" text? default.model = some s.model := by
    rw [optional_raw hnames (v := .string s.model) (by simp [members]), text?_raw]
  have hdimensions : optional (rawFields s.members) "dimensions" natural? default.dimensions =
      some s.dimensions := by
    rw [optional_raw hnames (v := natJson s.dimensions) (by simp [members]),
      natural?_natJson hs.dimensions]
  have hnormalize : optional (rawFields s.members) "normalize" bool? default.normalize =
      some s.normalize := by
    rw [optional_raw hnames (v := .bool s.normalize) (by simp [members]), bool?_raw]
  have hbatch : optional (rawFields s.members) "batch_size" natural? default.batchSize =
      some s.batchSize := by
    rw [optional_raw hnames (v := natJson s.batchSize) (by simp [members]),
      natural?_natJson hs.batchSize]
  have hoptions : optional (rawFields s.members) "provider_config" (json? (enclosing + 1)) .null =
      some s.options := by
    rw [optional_raw hnames (v := s.options) (by simp [members]),
      json?_raw hs.canonical hi hs.depth]
  simp [decode?, hfields, hprovider, hmodel, hdimensions, hnormalize, hbatch, hoptions]

end EmbedderSettings

/-! ### Store settings -/

namespace StoreSettings

variable {s : StoreSettings} {text : String}

/-- Settings that a text can have. -/
structure Readable (s : StoreSettings) : Prop where
  limit : s.limit < 0x10000000000000000
  embedder : s.embedder.Readable 1

theorem readable_of_ofJsonText? (h : ofJsonText? text = some s) : s.Readable := by
  obtain ⟨r, -, h⟩ := Option.bind_eq_some_iff.mp h
  simp only [decode?, Option.bind_eq_bind, Option.bind_eq_some_iff, Option.some.injEq] at h
  obtain ⟨fields, -, backend, -, path, -, partition, -, metric, -, limit, hlimit, embedder,
    hembedder, rfl⟩ := h
  constructor
  · exact forall_of_optional (· < 0x10000000000000000) hlimit (by decide) fun v => natural?_lt
  · exact forall_of_optional (EmbedderSettings.Readable 1) hembedder
      EmbedderSettings.readable_default fun v => EmbedderSettings.readable_of_decode?

/-- What is written are fields of the settings in their order, all but a path that is not set. -/
lemma keys_members (s : StoreSettings) : (s.members.map (·.1)).Sublist fieldNames := by
  unfold members
  cases s.path with
  | none =>
    show ["backend", "partition_key", "distance_metric", "n_results", "embedding"].Sublist fieldNames
    decide
  | some p => exact List.Sublist.refl _

lemma integral_toJson (hs : s.Readable) (hi : s.embedder.options.Integral) :
    s.toJson.Integral := by
  have hlimit := EmbedderSettings.integral_natJson hs.limit
  have hembedder := EmbedderSettings.integral_members hs.embedder hi
  have hpartition : s.partition.toJson.Integral := by
    cases s.partition with
    | int n => exact .integer _
    | text s => exact .string s
  refine .object ?_
  unfold members
  cases s.path with
  | none => simp [Integral.string, hpartition, hlimit, hembedder]
  | some p => simp [Integral.string, hpartition, hlimit, hembedder]

/-- **Settings are read as they were written.** -/
theorem ofJsonText?_write (hs : s.Readable) (hi : s.embedder.options.Integral) :
    ofJsonText? s.toJson.write = some s := by
  have hkeys := keys_members s
  have hnames : fieldNames.Nodup := by decide
  have hnodup := hnames.sublist hkeys
  have hfields : fields? fieldNames s.toJson.raw = some (rawFields s.members) :=
    fields?_raw hnames hkeys
  have hbackend : optional (rawFields s.members) "backend"
      (fun v => (alternative? v).bind BackendKind.ofName?) default.backend = some s.backend := by
    rw [optional_raw hnodup (v := .string s.backend.name) (by simp [members]), alternative?_raw,
      Option.bind_some, BackendKind.ofName?_name]
  have hpath : optional (rawFields s.members) "path" (nullable text?) none = some s.path := by
    cases hp : s.path with
    | none => exact optional_raw_of_notMem (by simp [members, hp])
    | some p =>
      rw [optional_raw hnodup (v := .string p) (by simp [members, hp])]
      show (text? (Json.string p).raw).map some = _
      rw [text?_raw]
      rfl
  have hpartition : optional (rawFields s.members) "partition_key" Partition.decode?
      default.partition = some s.partition := by
    rw [optional_raw hnodup (v := s.partition.toJson) (by simp [members]),
      Partition.decode?_toJson]
  have hmetric : optional (rawFields s.members) "distance_metric" Collection.metric?
      default.metric = some s.metric := by
    rw [optional_raw hnodup (v := .string s.metric.name) (by simp [members])]
    unfold Collection.metric?
    rw [alternative?_raw, Option.bind_some, Metric.ofName?_name]
  have hlimit : optional (rawFields s.members) "n_results" natural? default.limit =
      some s.limit := by
    rw [optional_raw hnodup (v := EmbedderSettings.natJson s.limit) (by simp [members]),
      EmbedderSettings.natural?_natJson hs.limit]
  have hembedder : optional (rawFields s.members) "embedding" (EmbedderSettings.decode? 1)
      .default = some s.embedder := by
    rw [optional_raw hnodup (v := .object s.embedder.members) (by simp [members]),
      EmbedderSettings.decode?_members hs.embedder hi]
  unfold ofJsonText?
  rw [Raw.ofText?_write (integral_toJson hs hi)]
  simp [decode?, hfields, hbackend, hpath, hpartition, hmetric, hlimit, hembedder]

/-- **Settings that were read of a text, in whatever spelling, are read again of the text they are
written as.** -/
theorem reread (h : ofJsonText? text = some s) (hi : s.embedder.options.Integral) :
    ofJsonText? s.toJson.write = some s :=
  ofJsonText?_write (readable_of_ofJsonText? h) hi

/-- Fields without names, of which the last ones are missing; the partition is a text of digits. -/
def unnamed : String := "[\x7b\"sqlite\":null\x7d,null,\"7\",\"euclidean\"]"

/-- Fields in no order, among others; options are not given. -/
def scattered : String :=
  "\x7b\"x\":[1.5],\"embedding\":\x7b\"dimensions\":3\x7d,\"partition_key\":7,\"backend\":\"memory\"\x7d"

/-- Without an embedder the options are empty, and without options they are null; both are read
again, as are the number and the text that name partitions. -/
theorem reread_unnamed :
    let s : StoreSettings := ⟨.sqlite, none, .text "7", .euclidean, 10, .default⟩
    let s' : StoreSettings := ⟨.memory, none, .int ⟨7, by decide, by decide⟩, .cosine, 10,
      { EmbedderSettings.default with dimensions := 3, options := .null }⟩
    ofJsonText? unnamed = some s ∧ ofJsonText? s.toJson.write = some s ∧
      ofJsonText? scattered = some s' ∧ ofJsonText? s'.toJson.write = some s' := by
  intro s s'
  have hs : ofJsonText? unnamed = some s := by rfl
  have hs' : ofJsonText? scattered = some s' := by rfl
  exact ⟨hs, reread hs (.object (by simp)), hs', reread hs' .null⟩

end StoreSettings

end SemanticStore
