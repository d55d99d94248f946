import SemanticStore.Proofs.Embedder.Trigram
import SemanticStore.Proofs.Store.Legible

/-!
# Embedding a batch

Whatever an embedder answers, the documents it is called for keep their ids, contents and metadata
(`Indexing.map_bare_embedMissing`). An embedder that takes each text by itself (`Embedder.Separate`)
makes the outcome of a batch that of its documents, one by one, however many texts are embedded at
once (`Indexing.embedMissing_eq`).
-/

namespace SemanticStore

open SemanticStore.Action

/-- The embedder answers for each text of a batch by itself, and does not care what it has been asked
before. -/
def Embedder.Separate (e : Embedder) (f : String → Except Fault Embedding) : Prop :=
  ∀ calls texts, e.answer calls texts = texts.mapM f

namespace Indexing

variable {e : Embedder} {f : String → Except Fault Embedding} {calls : Calls}
  {documents prepared : List Document}

theorem map_bare_embedMissing {batchSize : ℕ}
    (h : ((embedMissing e batchSize documents).exec calls).1 = .ok prepared) :
    prepared.map Document.bare = documents.map Document.bare := by
  obtain ⟨found, -, h⟩ := exec_bind_eq_ok.mp h
  cases h
  exact map_bare_fill documents found

/-! ### Embedders that take each text by itself -/

lemma flatten_chunks {α : Type} (n : ℕ) (l : List α) : (chunks n l).flatten = l := by
  induction l using chunks.induct n with
  | case1 => simp [chunks]
  | case2 a rest ih => simp [chunks, ih]

lemma exec_embedChunk (he : e.Separate f) (texts : List String) (calls : Calls) :
    ((embedChunk e texts).exec calls).1 = texts.mapM f := by
  have hcall : (e.call texts).exec calls = (texts.mapM f, calls ++ [texts]) :=
    congrArg (fun r => (r, calls ++ [texts])) (he calls texts)
  unfold embedChunk
  rw [exec_bind, hcall]
  cases hfound : texts.mapM f with
  | error fault => rfl
  | ok found =>
    have hlength := (forall₂_of_mapM_eq_ok hfound).length_eq
    simp [hlength]

/-- How the texts are cut into runs does not matter. -/
theorem exec_embedChunks (he : e.Separate f) (runs : List (List String)) : ∀ calls,
    ((embedChunks e runs).exec calls).1 = runs.flatten.mapM f := by
  induction runs with
  | nil => exact fun _ => rfl
  | cons texts rest ih =>
    intro calls
    have hchunk := exec_embedChunk he texts calls
    unfold embedChunks
    rw [exec_bind, List.flatten_cons, List.mapM_append, ← hchunk]
    rcases (embedChunk e texts).exec calls with ⟨fault | found, calls'⟩
    · rfl
    · dsimp only
      rw [exec_bind_pure, ih calls']
      cases rest.flatten.mapM f <;> rfl

/-- A document with an embedding: the one it brings, or that of its content. -/
def prepare (f : String → Except Fault Embedding) (d : Document) : Except Fault Document :=
  match d.embedding with
  | some _ => .ok d
  | none => (f d.content).map fun e => { d with embedding := some e }

lemma prepare_eq_ok_iff {d d' : Document} : prepare f d = .ok d' ↔
    ∃ q, (d.embedding = some q ∨ d.embedding = none ∧ f d.content = .ok q) ∧
      d' = { d with embedding := some q } := by
  unfold prepare
  cases hd : d.embedding with
  | some q =>
    have hself : d = { d with embedding := some q } := by rw [← hd]
    simp [← hself, eq_comm]
  | none =>
    constructor
    · intro h
      obtain ⟨q, hq, rfl⟩ := exists_of_map_eq_ok h
      exact ⟨q, .inr ⟨rfl, hq⟩, rfl⟩
    · rintro ⟨q, ⟨⟨⟩⟩ | ⟨-, hq⟩, rfl⟩
      simp [hq, Except.map]

lemma ids_of_prepare (h : List.Forall₂ (fun d d' => prepare f d = .ok d') documents prepared) :
    prepared.map (·.id) = documents.map (·.id) := by
  refine Documents.ids_of_forall₂ h fun d d' hd => ?_
  obtain ⟨q, -, rfl⟩ := prepare_eq_ok_iff.mp hd
  rfl

/-- The documents that lack an embedding get those of their contents. -/
theorem map_fill (f : String → Except Fault Embedding) (documents : List Document) :
    ((pending documents).mapM f).map (fill documents) = documents.mapM (prepare f) := by
  induction documents with
  | nil => rfl
  | cons d rest ih =>
    rw [List.mapM_cons, ← ih]
    cases hd : d.embedding with
    | some e =>
      have hpending : pending (d :: rest) = pending rest := by simp [pending, hd]
      have hprepare : prepare f d = .ok d := by simp [prepare, hd]
      rw [hpending, hprepare]
      cases (pending rest).mapM f with
      | error fault => rfl
      | ok found => simp [Except.map, fill, hd]; rfl
    | none =>
      have hpending : pending (d :: rest) = d.content :: pending rest := by simp [pending, hd]
      have hprepare : prepare f d = (f d.content).map fun e => { d with embedding := some e } := by
        simp [prepare, hd]
      rw [hpending, hprepare, List.mapM_cons]
      cases f d.content with
      | error fault => rfl
      | ok e =>
        cases (pending rest).mapM f with
        | error fault => rfl
        | ok found => simp [Except.map, fill, hd, bind, Except.bind]; rfl

/-- **An embedder that takes each text by itself prepares each document by itself**, however many
texts are embedded at once. -/
theorem embedMissing_eq (he : e.Separate f) (batchSize : ℕ) (documents : List Document)
    (calls : Calls) :
    ((embedMissing e batchSize documents).exec calls).1 = documents.mapM (prepare f) := by
  unfold embedMissing
  rw [exec_bind_pure, exec_embedChunks he, flatten_chunks, map_fill]

/-- Queries get the embeddings that documents with these contents get. -/
theorem embedQueries_eq (he : e.Separate f) (queries : List String) (calls : Calls) :
    ((embedQueries e queries).exec calls).1 = queries.mapM f := by
  have hcall : (e.call queries).exec calls = (queries.mapM f, calls ++ [queries]) :=
    congrArg (fun r => (r, calls ++ [queries])) (he calls queries)
  unfold embedQueries
  cases queries with
  | nil => rfl
  | cons query rest =>
    simp only [List.isEmpty_cons, Bool.false_eq_true, if_false]
    rw [exec_bind, hcall]
    cases hfound : (query :: rest).mapM f with
    | error fault => rfl
    | ok found =>
      have hlength := (forall₂_of_mapM_eq_ok hfound).length_eq
      simp [hlength]

lemma getElem?_of_embedQueries {queries : List String} {found : List Embedding} {i : ℕ}
    {text : String} {q : Embedding} (he : e.Separate f)
    (h : ((embedQueries e queries).exec calls).1 = .ok found) (hi : queries[i]? = some text)
    (hq : f text = .ok q) : found[i]? = some q := by
  rw [embedQueries_eq he] at h
  have hfound := forall₂_of_mapM_eq_ok h
  obtain ⟨hlt, hget⟩ := List.getElem?_eq_some_iff.mp hi
  have hanswer := hfound.get hlt (hfound.length_eq ▸ hlt)
  rw [List.get_eq_getElem, hget, hq] at hanswer
  exact List.getElem?_eq_some_iff.mpr ⟨_, (Except.ok.inj hanswer).symm⟩

end Indexing

/-! ### The trigram embedder -/

namespace Trigram

theorem separate_embedder (dimensions : ℕ) (normalized : Bool) :
    (embedder dimensions normalized).Separate fun text => .ok (embed dimensions normalized text) :=
  fun _ texts => (List.mapM_pure (m := Except Fault) (l := texts)
    (f := embed dimensions normalized)).symm

end Trigram

/-- A store with a small trigram embedder. -/
def Store.hashing : Store := .new (Trigram.embedder 2 true)

end SemanticStore
