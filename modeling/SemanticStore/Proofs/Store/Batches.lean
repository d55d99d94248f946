import SemanticStore.Proofs.Store.Embedded

/-!
# The calls of a batch

Which calls an embedder gets for the documents of a batch (`Indexing.Batches`): runs of the contents
that lack an embedding, up to the first run that it refuses. With an embedder that takes each text by
itself and never fails, nothing of this shows in the outcome, which does not depend on the size of the
runs (`Indexing.embedMissing_batches`).
-/

namespace SemanticStore.Indexing

open SemanticStore.Action

variable {e : Embedder} {calls : Calls} {documents : List Document} {batchSize : ℕ}

/-! ### Runs -/

/-- **Run after run is embedded, and none after one that is refused.** -/
theorem embedChunks_stops (runs : List (List String)) (calls : Calls) :
    ∃ made later, runs = made ++ later ∧
      (embedChunks e runs).exec calls = (embedChunks e made).exec calls ∧
      ((embedChunks e made).exec calls).2 = calls ++ made ∧
      (∀ found, ((embedChunks e made).exec calls).1 = .ok found → later = []) ∧
      ∀ init texts tail, made = init ++ texts :: tail → tail ≠ [] →
        ∀ fault, ¬ Refusal e (calls ++ init) texts fault := by
  induction runs generalizing calls with
  | nil => exact ⟨[], [], rfl, rfl, (List.append_nil calls).symm, fun _ _ => rfl, by simp⟩
  | cons texts rest ih =>
    cases hx : ((embedChunk e texts).exec calls).1 with
    | error fault =>
      -- the first run is refused, and is the last one
      have hexec := exec_embedChunks_refused hx
      refine ⟨[texts], rest, rfl, ?_, ?_, fun found hok => ?_, fun init t tail h htail => ?_⟩
      · rw [hexec, hexec]
      · rw [hexec]
      · rw [hexec] at hok
        cases hok
      · cases init with
        | nil => exact absurd (List.cons.inj h).2.symm htail
        | cons _ init => simp at h
    | ok found =>
      have hexec := exec_embedChunks_embedded hx
      obtain ⟨made, later, hrest, hsame, hmade, hall, hanswered⟩ := ih (calls ++ [texts])
      refine ⟨texts :: made, later, ?_, ?_, ?_, fun all hok => ?_, fun init t tail h htail => ?_⟩
      · rw [hrest, List.cons_append]
      · rw [hexec, hexec, hsame]
      · rw [hexec, hmade, List.append_assoc, List.singleton_append]
      · rw [hexec] at hok
        obtain ⟨more, hmore, -⟩ := exists_of_map_eq_ok hok
        exact hall more hmore
      · cases init with
        | nil =>
          obtain ⟨rfl, -⟩ := List.cons.inj h
          intro fault hrefused
          rw [List.append_nil] at hrefused
          rw [embedChunk_eq_error_iff.mpr hrefused] at hx
          cases hx
        | cons _ init =>
          obtain ⟨rfl, hmade⟩ := List.cons.inj h
          have hinit := hanswered init t tail hmade htail
          rwa [List.append_assoc] at hinit

/-! ### Batches -/

/-- An embedder that has been called before is called for documents, a few texts at a time, until it
refuses or all are embedded. -/
structure Batches (e : Embedder) (calls : Calls) (batchSize : ℕ) (documents : List Document)
    (made : Calls) (result : Except Fault (List Document)) : Prop where
  nonempty : ∀ texts ∈ made, texts ≠ []
  length_le : ∀ texts ∈ made, texts.length ≤ max batchSize 1
  /-- one call continues with the contents where the one before it stopped -/
  contents : made.flatten <+: pending documents
  complete : ∀ prepared, result = .ok prepared → made.flatten = pending documents
  /-- the embedder is not called again after it refuses -/
  answered : ∀ init texts tail, made = init ++ texts :: tail → tail ≠ [] →
    ∀ fault, ¬ Refusal e (calls ++ init) texts fault
  /-- the documents are refused for the first call that the embedder refuses -/
  refused : ∀ fault, result = .error fault ↔
    FirstFault (fun earlier texts => Refusal e (calls ++ earlier) texts) made fault

theorem batches_embedMissing (e : Embedder) (batchSize : ℕ) (documents : List Document)
    (calls : Calls) : ∃ made, ((embedMissing e batchSize documents).exec calls).2 = calls ++ made ∧
      Batches e calls batchSize documents made ((embedMissing e batchSize documents).exec calls).1 := by
  obtain ⟨made, later, hruns, hsame, hmade, hall, hanswered⟩ :=
    embedChunks_stops (e := e) (runs batchSize documents) calls
  have hcontents : made.flatten ++ later.flatten = pending documents := by
    rw [← List.flatten_append, ← hruns]
    exact flatten_chunks ..
  have hmem {texts : List String} (h : texts ∈ made) : texts ∈ runs batchSize documents := by
    rw [hruns]
    exact List.mem_append_left _ h
  have hexec : (embedMissing e batchSize documents).exec calls =
      (((embedChunks e made).exec calls).1.map (fill documents),
        ((embedChunks e made).exec calls).2) := by
    rw [← hsame]
    exact exec_bind_pure ..
  rw [hexec]
  refine ⟨made, hmade, fun texts h => (length_of_mem_chunks (hmem h)).1, fun texts h => ?_,
    ⟨later.flatten, hcontents⟩, fun prepared hok => ?_, hanswered, fun fault => ?_⟩
  · have hlength := (length_of_mem_chunks (hmem h)).2
    omega
  · obtain ⟨found, hfound, -⟩ := exists_of_map_eq_ok hok
    rw [← hcontents, hall found hfound, List.flatten_nil, List.append_nil]
  · rw [map_eq_error_iff, embedChunks_eq_error_iff]

/-- **Documents are embedded a few at a time.** Whatever an embedder answers, it is called for runs of
the contents that lack an embedding, up to the first that it refuses. If it takes each text by itself
and never fails, then each document keeps its own embedding or gets that of its own content, whatever
the size of the runs. -/
theorem embedMissing_batches (e : Embedder) (batchSize : ℕ) (documents : List Document)
    (calls : Calls) :
    (∀ f : String → Embedding, e.Separate (fun text => .ok (f text)) →
      ((embedMissing e batchSize documents).exec calls).1 = .ok (documents.map fun d =>
        { d with embedding := some (d.embedding.getD (f d.content)) })) ∧
    ∃ made, ((embedMissing e batchSize documents).exec calls).2 = calls ++ made ∧
      Batches e calls batchSize documents made ((embedMissing e batchSize documents).exec calls).1 := by
  refine ⟨fun f he => ?_, batches_embedMissing e batchSize documents calls⟩
  rw [embedMissing_eq he]
  refine mapM_eq_ok fun d _ => prepare_eq_ok_iff.mpr ⟨_, ?_, rfl⟩
  cases d.embedding with
  | some q => exact .inl rfl
  | none => exact .inr ⟨rfl, rfl⟩

/-- Four documents, of which the second brings an embedding. -/
def kennel : List Document :=
  [⟨"1", "a fox", none, none⟩, ⟨"2", "a wolf", none, some [.one, .zero]⟩,
    ⟨"3", "a hound", none, none⟩, ⟨"4", "a fox", none, none⟩]

/-- Two at a time, the first call passes over the document that brings an embedding. -/
theorem embedMissing_batches_kennel :
    (Trigram.embedder 2 true).Separate (fun text => .ok (Trigram.embed 2 true text)) ∧
      ((embedMissing (Trigram.embedder 2 true) 2 kennel).exec []).1 = .ok (kennel.map fun d =>
        { d with embedding := some (d.embedding.getD (Trigram.embed 2 true d.content)) }) ∧
      Batches (Trigram.embedder 2 true) [] 2 kennel [["a fox", "a hound"], ["a fox"]]
        ((embedMissing (Trigram.embedder 2 true) 2 kennel).exec []).1 := by
  have he := Trigram.separate_embedder 2 true
  obtain ⟨hseparate, made, hmade, hbatches⟩ :=
    embedMissing_batches (Trigram.embedder 2 true) 2 kennel []
  have hcalls : ((embedMissing (Trigram.embedder 2 true) 2 kennel).exec []).2 =
      [["a fox", "a hound"], ["a fox"]] := by decide +kernel
  obtain rfl : made = [["a fox", "a hound"], ["a fox"]] := hmade.symm.trans hcalls
  exact ⟨he, hseparate _ he, hbatches⟩

end SemanticStore.Indexing
