import SemanticStore.Proofs.Store.Refusal

/-!
# What a batch is embedded to

`Indexing.Prepares` says of any embedder to which documents a batch is completed, without the functions
that complete it:

* `Indexing.Runs`: the contents that lack an embedding are cut into runs, all but the last one as long
  as runs may be;
* `Indexing.Answered`: the embedder is called for run after run, and answers each with as many
  embeddings as it has texts;
* `Indexing.Filled`: in this order the documents that lack an embedding get them, and all else stays.

A batch is embedded just if it is prepared in this way (`Indexing.embedMissing_eq_ok_iff_prepares`).
-/

namespace SemanticStore.Indexing

open SemanticStore.Action

/-! ### Batches that are prepared -/

/-- The runs in which the contents of documents without an embedding are embedded. -/
structure Runs (batchSize : ℕ) (documents : List Document) (runs : List (List String)) : Prop where
  contents : runs.flatten = (documents.filter fun d => d.embedding.isNone).map (·.content)
  nonempty : ∀ run ∈ runs, run ≠ []
  length_le : ∀ run ∈ runs, run.length ≤ max batchSize 1
  full : ∀ run ∈ runs.dropLast, run.length = max batchSize 1

/-- An embedder that has been called before answers run after run with these embeddings. -/
inductive Answered (e : Embedder) : Calls → List (List String) → List Embedding → Prop
  | nil {calls : Calls} : Answered e calls [] []
  | cons {calls : Calls} {texts : List String} {rest : List (List String)}
      {first more : List Embedding} (h : e.answer calls texts = .ok first)
      (hlength : first.length = texts.length) (hrest : Answered e (calls ++ [texts]) rest more) :
      Answered e calls (texts :: rest) (first ++ more)

/-- Documents keep the embeddings that they bring, and the others get these, one after the other. -/
inductive Filled : List Document → List Embedding → List Document → Prop
  | nil : Filled [] [] []
  | attached {d : Document} {v : Embedding} {rest prepared : List Document} {found : List Embedding}
      (hd : d.embedding = some v) (h : Filled rest found prepared) :
      Filled (d :: rest) found (d :: prepared)
  | computed {d : Document} {v : Embedding} {rest prepared : List Document} {found : List Embedding}
      (hd : d.embedding = none) (h : Filled rest found prepared) :
      Filled (d :: rest) (v :: found) ({ d with embedding := some v } :: prepared)

/-- The batch with an embedding for each document, as an embedder that has been called before gives
them. -/
def Prepares (e : Embedder) (calls : Calls) (batchSize : ℕ) (documents prepared : List Document) :
    Prop :=
  ∃ runs found, Runs batchSize documents runs ∧ Answered e calls runs found ∧
    Filled documents found prepared

/-! ### Runs -/

section Chunks

variable {α : Type} {n : ℕ} {l run : List α} {runs : List (List α)}

lemma length_of_mem_chunks (h : run ∈ chunks n l) : run ≠ [] ∧ run.length ≤ n + 1 := by
  induction l using chunks.induct n with
  | case1 => simp [chunks] at h
  | case2 a rest ih =>
    rw [chunks] at h
    rcases List.mem_cons.mp h with rfl | h
    · exact ⟨List.cons_ne_nil _ _, by simp⟩
    · exact ih h

lemma length_of_mem_dropLast_chunks (h : run ∈ (chunks n l).dropLast) : run.length = n + 1 := by
  induction l using chunks.induct n with
  | case1 => simp [chunks] at h
  | case2 a rest ih =>
    rw [chunks] at h
    cases hrest : rest.drop n with
    | nil =>
      rw [hrest] at h
      simp [chunks] at h
    | cons b more =>
      have hlength : n < rest.length := by
        by_contra hle
        rw [List.drop_eq_nil_of_le (not_lt.mp hle)] at hrest
        cases hrest
      have hne : chunks n (rest.drop n) ≠ [] := by
        rw [hrest, chunks]
        exact List.cons_ne_nil _ _
      rw [List.dropLast_cons_of_ne_nil hne] at h
      rcases List.mem_cons.mp h with rfl | h
      · simp; omega
      · exact ih h

/-- There is one way to cut a list into runs of which only the last one is shorter. -/
theorem eq_chunks (hflatten : runs.flatten = l) (hne : ∀ run ∈ runs, run ≠ [])
    (hle : ∀ run ∈ runs, run.length ≤ n + 1) (hfull : ∀ run ∈ runs.dropLast, run.length = n + 1) :
    runs = chunks n l := by
  subst hflatten
  induction runs with
  | nil => simp [chunks]
  | cons run rest ih =>
    obtain ⟨hrun, hnerest⟩ := List.forall_mem_cons.mp hne
    obtain ⟨hlength, hlerest⟩ := List.forall_mem_cons.mp hle
    obtain ⟨a, tail, rfl⟩ := List.exists_cons_of_ne_nil hrun
    rw [List.length_cons, Nat.add_le_add_iff_right] at hlength
    rw [List.flatten_cons, List.cons_append, chunks]
    cases rest with
    | nil => simp [chunks, List.take_of_length_le hlength, List.drop_eq_nil_of_le hlength]
    | cons next rest =>
      rw [List.dropLast_cons_cons] at hfull
      obtain ⟨htail, hfullrest⟩ := List.forall_mem_cons.mp hfull
      have htail : tail.length = n := Nat.succ.inj htail
      rw [List.take_left' htail, List.drop_left' htail, ← ih hnerest hlerest hfullrest]

end Chunks

variable {e : Embedder} {calls : Calls} {batchSize : ℕ} {documents prepared : List Document}
  {rs : List (List String)} {found : List Embedding}

theorem runs_iff : Runs batchSize documents rs ↔ rs = runs batchSize documents := by
  have hmax : max batchSize 1 = batchSize - 1 + 1 := by omega
  constructor
  · rintro ⟨hcontents, hne, hle, hfull⟩
    exact eq_chunks hcontents hne (hmax ▸ hle) (hmax ▸ hfull)
  · rintro rfl
    refine ⟨flatten_chunks .., fun run hrun => (length_of_mem_chunks hrun).1, fun run hrun => ?_,
      fun run hrun => ?_⟩
    · exact hmax ▸ (length_of_mem_chunks hrun).2
    · exact hmax ▸ length_of_mem_dropLast_chunks hrun

/-! ### Answers -/

/-- **Runs are embedded just if the embedder answers each with as many embeddings.** -/
theorem embedChunks_eq_ok_iff_answered :
    ((embedChunks e rs).exec calls).1 = .ok found ↔ Answered e calls rs found := by
  constructor
  · intro h
    induction rs generalizing calls found with
    | nil =>
      cases h
      exact .nil
    | cons texts rest ih =>
      cases hx : ((embedChunk e texts).exec calls).1 with
      | error fault =>
        rw [exec_embedChunks_refused hx] at h
        cases h
      | ok first =>
        rw [exec_embedChunks_embedded hx] at h
        obtain ⟨more, hmore, rfl⟩ := exists_of_map_eq_ok h
        obtain ⟨hanswer, hlength⟩ := embedChunk_eq_ok_iff.mp hx
        exact .cons hanswer hlength (ih hmore)
  · intro h
    induction h with
    | nil => rfl
    | cons hanswer hlength _ ih =>
      rw [exec_embedChunks_embedded (embedChunk_eq_ok_iff.mpr ⟨hanswer, hlength⟩), ih]
      rfl

lemma length_of_answered (h : Answered e calls rs found) : found.length = rs.flatten.length := by
  induction h with
  | nil => rfl
  | cons _ hlength _ ih => rw [List.flatten_cons, List.length_append, List.length_append, hlength, ih]

/-! ### Documents -/

lemma filled_fill (h : found.length = (pending documents).length) :
    Filled documents found (fill documents found) := by
  induction documents generalizing found with
  | nil =>
    obtain rfl := List.eq_nil_of_length_eq_zero h
    exact .nil
  | cons d rest ih =>
    cases hd : d.embedding with
    | some v =>
      have hpending : pending (d :: rest) = pending rest := by simp [pending, hd]
      have hfill : fill (d :: rest) found = d :: fill rest found := by simp [fill, hd]
      rw [hfill]
      exact .attached hd (ih (hpending ▸ h))
    | none =>
      have hpending : pending (d :: rest) = d.content :: pending rest := by simp [pending, hd]
      rw [hpending, List.length_cons] at h
      obtain ⟨v, more, rfl⟩ := List.exists_cons_of_length_eq_add_one h
      have hfill : fill (d :: rest) (v :: more) =
          { d with embedding := some v } :: fill rest more := by
        simp [fill, hd]
      rw [hfill]
      exact .computed hd (ih (Nat.succ.inj h))

lemma fill_of_filled (h : Filled documents found prepared) : fill documents found = prepared := by
  induction h with
  | nil => rfl
  | attached hd _ ih => simp [fill, hd, ih]
  | computed hd _ ih => simp [fill, hd, ih]

/-- **A batch is embedded just if it is prepared**, whatever the embedder. -/
theorem embedMissing_eq_ok_iff_prepares :
    ((embedMissing e batchSize documents).exec calls).1 = .ok prepared ↔
      Prepares e calls batchSize documents prepared := by
  have hembed : ((embedMissing e batchSize documents).exec calls).1 = .ok prepared ↔
      ∃ found, Answered e calls (runs batchSize documents) found ∧ fill documents found = prepared := by
    unfold embedMissing
    simp only [exec_bind_eq_ok, ← embedChunks_eq_ok_iff_answered]
    exact exists_congr fun found => and_congr Iff.rfl ⟨Except.ok.inj, congrArg Except.ok⟩
  rw [hembed]
  constructor
  · rintro ⟨found, hanswered, rfl⟩
    refine ⟨_, found, runs_iff.mpr rfl, hanswered, filled_fill ?_⟩
    rw [length_of_answered hanswered]
    exact congrArg List.length (flatten_chunks ..)
  · rintro ⟨rs, found, hruns, hanswered, hfilled⟩
    obtain rfl := runs_iff.mp hruns
    exact ⟨found, hanswered, fill_of_filled hfilled⟩

lemma Prepares.unique {prepared' : List Document} (h : Prepares e calls batchSize documents prepared)
    (h' : Prepares e calls batchSize documents prepared') : prepared = prepared' := by
  rw [← embedMissing_eq_ok_iff_prepares] at h h'
  exact Except.ok.inj (h.symm.trans h')

/-! ### Documents that are completed -/

/-- The document is completed: it has an embedding, its own if it brings one, and is the same
otherwise. -/
structure Completes (d completed : Document) : Prop where
  id : completed.id = d.id
  content : completed.content = d.content
  metadata : completed.metadata = d.metadata
  attached : ∀ e, d.embedding = some e → completed.embedding = some e
  embedding : completed.embedding.isSome

lemma completes_of_filled (h : Filled documents found prepared) :
    List.Forall₂ Completes documents prepared := by
  induction h with
  | nil => exact .nil
  | attached hd _ ih => exact .cons ⟨rfl, rfl, rfl, fun _ => id, by rw [hd]; rfl⟩ ih
  | computed hd _ ih =>
    refine .cons ⟨rfl, rfl, rfl, fun v hv => ?_, rfl⟩ ih
    cases hd.symm.trans hv

/-- **A batch that is embedded has all its documents completed.** -/
theorem completes_embedMissing
    (h : ((embedMissing e batchSize documents).exec calls).1 = .ok prepared) :
    List.Forall₂ Completes documents prepared := by
  obtain ⟨_, _, -, -, hfilled⟩ := embedMissing_eq_ok_iff_prepares.mp h
  exact completes_of_filled hfilled

lemma ids_of_completes (h : List.Forall₂ Completes documents prepared) :
    prepared.map (·.id) = documents.map (·.id) :=
  Documents.ids_of_forall₂ h fun _ _ hd => hd.id

/-- A batch whose documents all bring their embeddings stays as it is, and needs no call. -/
theorem prepares_of_attached (h : ∀ d ∈ documents, d.embedding.isSome) :
    Prepares e calls batchSize documents documents := by
  have hnone : documents.filter (fun d => d.embedding.isNone) = [] :=
    List.filter_eq_nil_iff.mpr fun d hd => by simp [Option.isSome_iff_ne_none.mp (h d hd)]
  have hfilled : Filled documents [] documents := by
    clear hnone
    induction documents with
    | nil => exact .nil
    | cons d rest ih =>
      obtain ⟨hd, hrest⟩ := List.forall_mem_cons.mp h
      obtain ⟨v, hv⟩ := Option.isSome_iff_exists.mp hd
      exact .attached hv (ih hrest)
  exact ⟨[], [], ⟨by rw [hnone]; rfl, by simp, by simp, by simp⟩, .nil, hfilled⟩

end SemanticStore.Indexing
