import SemanticStore.Proofs.Store.Effects
import SemanticStore.Proofs.Store.Preparation

/-!
# Why a batch is refused

A batch is looked through from its first element to its last, three times over: when its texts are
embedded run by run, when its ids are compared with what is stored and when its embeddings are
measured. Each time it is refused for the first element that has a fault (`FirstFault`):

* a run of texts that the embedder fails on or miscounts (`Indexing.Refusal`);
* an id that is stored or came before (`Holdings.Repeated`);
* an embedding that is not finite or has another length (`Holdings.Misfit`).
-/

namespace SemanticStore

open SemanticStore.Action

/-! ### The first fault -/

section FirstFault

variable {α : Type} {p : List α → α → Fault → Prop} {a : α} {l : List α} {e : Fault}

/-- The fault of the first element of a list that has one. What faults an element has may depend on
the elements before it. -/
def FirstFault (p : List α → α → Fault → Prop) (l : List α) (e : Fault) : Prop :=
  ∃ earlier a later, l = earlier ++ a :: later ∧ p earlier a e ∧
    ∀ init b tail, earlier = init ++ b :: tail → ∀ e', ¬ p init b e'

@[simp] lemma not_firstFault_nil : ¬ FirstFault p [] e := by
  rintro ⟨earlier, a, later, h, -⟩
  simp at h

lemma firstFault_cons : FirstFault p (a :: l) e ↔
    p [] a e ∨ (∀ e', ¬ p [] a e') ∧ FirstFault (fun earlier => p (a :: earlier)) l e := by
  constructor
  · rintro ⟨earlier, b, later, hl, hb, hbefore⟩
    cases earlier with
    | nil =>
      obtain ⟨rfl, rfl⟩ := List.cons.inj hl
      exact .inl hb
    | cons a' earlier =>
      obtain ⟨rfl, rfl⟩ := List.cons.inj hl
      refine .inr ⟨hbefore [] a earlier rfl, earlier, b, later, rfl, hb, fun init c tail h => ?_⟩
      exact hbefore (a :: init) c tail (congrArg (a :: ·) h)
  · rintro (ha | ⟨ha, earlier, b, later, rfl, hb, hbefore⟩)
    · exact ⟨[], a, l, rfl, ha, fun init b tail h => by simp at h⟩
    · refine ⟨a :: earlier, b, later, rfl, hb, fun init c tail h => ?_⟩
      cases init with
      | nil =>
        obtain ⟨rfl, -⟩ := List.cons.inj h
        exact ha
      | cons a' init =>
        obtain ⟨rfl, rfl⟩ := List.cons.inj h
        exact hbefore init c tail rfl

end FirstFault

/-! ### Embedding -/

namespace Indexing

variable {e : Embedder} {calls : Calls} {texts : List String} {documents : List Document}

/-- How an embedder that has been called before refuses a run of texts. -/
inductive Refusal (e : Embedder) (calls : Calls) (texts : List String) : Fault → Prop
  | failed {fault : Fault} (h : e.answer calls texts = .error fault) : Refusal e calls texts fault
  | miscounted {found : List Embedding} (h : e.answer calls texts = .ok found)
      (hn : found.length ≠ texts.length) :
      Refusal e calls texts (.embedding ("Provider returned " ++ toString found.length ++
        " embeddings for " ++ toString texts.length ++ " texts"))

lemma exec_embedChunk_eq (e : Embedder) (texts : List String) (calls : Calls) :
    (embedChunk e texts).exec calls = (match e.answer calls texts with
      | .ok found =>
          if found.length = texts.length then .ok found
          else .error (.embedding ("Provider returned " ++ toString found.length ++
            " embeddings for " ++ toString texts.length ++ " texts"))
      | .error fault => .error fault, calls ++ [texts]) := by
  have hcall : (e.call texts).exec calls = (e.answer calls texts, calls ++ [texts]) := rfl
  unfold embedChunk
  rw [exec_bind, hcall]
  cases e.answer calls texts with
  | error fault => rfl
  | ok found =>
    dsimp only
    split <;> rfl

lemma embedChunk_eq_ok_iff {found : List Embedding} :
    ((embedChunk e texts).exec calls).1 = .ok found ↔
      e.answer calls texts = .ok found ∧ found.length = texts.length := by
  rw [exec_embedChunk_eq]
  cases e.answer calls texts with
  | error fault => simp
  | ok found' =>
    dsimp only
    split
    · rename_i hn
      constructor
      · rintro ⟨⟩
        exact ⟨rfl, hn⟩
      · rintro ⟨⟨⟩, -⟩
        rfl
    · rename_i hn
      constructor
      · rintro ⟨⟩
      · rintro ⟨⟨⟩, hlength⟩
        exact absurd hlength hn

lemma embedChunk_eq_error_iff {fault : Fault} :
    ((embedChunk e texts).exec calls).1 = .error fault ↔ Refusal e calls texts fault := by
  rw [exec_embedChunk_eq]
  constructor
  · intro h
    cases ha : e.answer calls texts with
    | error fault' =>
      rw [ha] at h
      cases h
      exact .failed ha
    | ok found =>
      rw [ha] at h
      dsimp only at h
      split at h
      · cases h
      · rename_i hn
        cases h
        exact .miscounted ha hn
  · intro h
    cases h with
    | failed ha => rw [ha]
    | miscounted ha hn =>
      rw [ha]
      exact if_neg hn

lemma exec_embedChunks_refused {fault : Fault} (h : ((embedChunk e texts).exec calls).1 = .error fault)
    (rest : List (List String)) :
    (embedChunks e (texts :: rest)).exec calls = (.error fault, calls ++ [texts]) := by
  have hcalls : ((embedChunk e texts).exec calls).2 = calls ++ [texts] := by rw [exec_embedChunk_eq]
  have hchunk : (embedChunk e texts).exec calls = (.error fault, calls ++ [texts]) := Prod.ext h hcalls
  unfold embedChunks
  rw [exec_bind, hchunk]

lemma exec_embedChunks_embedded {found : List Embedding}
    (h : ((embedChunk e texts).exec calls).1 = .ok found) (rest : List (List String)) :
    (embedChunks e (texts :: rest)).exec calls =
      (((embedChunks e rest).exec (calls ++ [texts])).1.map (found ++ ·),
        ((embedChunks e rest).exec (calls ++ [texts])).2) := by
  have hcalls : ((embedChunk e texts).exec calls).2 = calls ++ [texts] := by rw [exec_embedChunk_eq]
  have hchunk : (embedChunk e texts).exec calls = (.ok found, calls ++ [texts]) := Prod.ext h hcalls
  rw [embedChunks, exec_bind, hchunk]
  exact exec_bind_pure ..

/-- **Texts are refused for the first run that the embedder refuses**, after the runs before it. -/
theorem embedChunks_eq_error_iff {runs : List (List String)} {fault : Fault} :
    ((embedChunks e runs).exec calls).1 = .error fault ↔
      FirstFault (fun earlier texts => Refusal e (calls ++ earlier) texts) runs fault := by
  induction runs generalizing calls with
  | nil =>
    have hnil : ((embedChunks e []).exec calls).1 = .ok [] := rfl
    simp [hnil]
  | cons texts rest ih =>
    have hrest := @ih (calls ++ [texts])
    simp only [List.append_assoc, List.singleton_append] at hrest
    rw [firstFault_cons, List.append_nil]
    cases hx : ((embedChunk e texts).exec calls).1 with
    | error fault' =>
      have hrefused := embedChunk_eq_error_iff.mp hx
      rw [exec_embedChunks_refused hx]
      constructor
      · rintro ⟨⟩
        exact .inl hrefused
      · rintro (h | ⟨h, -⟩)
        · exact hx.symm.trans (embedChunk_eq_error_iff.mpr h)
        · exact absurd hrefused (h fault')
    | ok found =>
      have hnone : ∀ fault', ¬ Refusal e calls texts fault' := by
        intro fault' h
        rw [embedChunk_eq_error_iff.mpr h] at hx
        cases hx
      rw [exec_embedChunks_embedded hx, ← hrest, map_eq_error_iff]
      simp [hnone]

/-- The runs of texts that a batch is embedded in. -/
def runs (batchSize : ℕ) (documents : List Document) : List (List String) :=
  chunks (batchSize - 1) (pending documents)

theorem embedMissing_eq_error_iff {batchSize : ℕ} {fault : Fault} :
    ((embedMissing e batchSize documents).exec calls).1 = .error fault ↔
      FirstFault (fun earlier texts => Refusal e (calls ++ earlier) texts)
        (runs batchSize documents) fault := by
  rw [← embedChunks_eq_error_iff]
  unfold embedMissing runs
  rw [exec_bind_pure]
  cases ((embedChunks e (chunks (batchSize - 1) (pending documents))).exec calls).1 with
  | error fault' => simp [Except.map]
  | ok found => simp [Except.map]

end Indexing

/-! ### Ids and embeddings -/

namespace Holdings

variable {σ : Type} [Backend σ] {a : Address} {c : Collection} {s : σ} {documents : List Document}
  {fault : Fault}

/-- The id is stored, or is one of those before it. -/
def Repeated (a : Address) (s : σ) (name : String) (earlier : List String) (id : String)
    (e : Fault) : Prop :=
  (Backend.hasDocument a id s = .ok true ∨ id ∈ earlier) ∧ e = .duplicateKey name id

/-- An embedding that cannot be stored in a collection of this dimension. -/
inductive Misfit (dimension : Option ℕ) (d : Document) : Fault → Prop
  | notFinite {v : Embedding} (h : d.embedding = some v) (hv : v.isFinite = false) :
      Misfit dimension d
        (.embedding ("Document '" ++ d.id ++ "' has a non-finite embedding component"))
  | length {v : Embedding} {n : ℕ} (h : d.embedding = some v) (hv : v.isFinite = true)
      (hn : dimension = some n) (hlength : n ≠ v.length) :
      Misfit dimension d (.dimensionMismatch n v.length)

/-- An id that is stored or was seen is refused, and any other is one more that was seen. -/
lemma exec_refuseDuplicates_cons {b : Bool} {d : Document} (seen : List String)
    (rest : List Document) (hb : Backend.hasDocument a d.id s = .ok b) :
    (refuseDuplicates a c seen (d :: rest)).exec s =
      if b = true ∨ d.id ∈ seen then (.error (.duplicateKey c.name d.id), s)
      else (refuseDuplicates a c (d.id :: seen) rest).exec s := by
  rw [refuseDuplicates]
  by_cases hseen : d.id ∈ seen
  · rw [if_pos hseen, if_pos (.inr hseen), exec_fail]
  · rw [if_neg hseen, exec_bind, exec_read, hb]
    cases b <;> simp [hseen]

/-- **A batch is refused for its first id that is stored or came before**, also among those that were
seen before the batch. -/
theorem refuseDuplicates_eq_error_iff (hs : ∀ id, ∃ b, Backend.hasDocument a id s = .ok b) :
    ∀ seen, ((refuseDuplicates a c seen documents).exec s).1 = .error fault ↔
      FirstFault (fun earlier => Repeated a s c.name (earlier ++ seen)) (documents.map (·.id))
        fault := by
  induction documents with
  | nil =>
    intro seen
    have hnil : ((refuseDuplicates a c seen []).exec s).1 = .ok () := rfl
    simp [hnil]
  | cons d rest ih =>
    intro seen
    -- ids that were seen count whatever their order
    have horder : (fun earlier => Repeated a s c.name (d.id :: earlier ++ seen)) =
        fun earlier => Repeated a s c.name (earlier ++ d.id :: seen) := by
      funext earlier id e
      unfold Repeated
      rw [List.cons_append, List.perm_middle.mem_iff]
    rw [List.map_cons, firstFault_cons, List.nil_append, horder, ← ih]
    obtain ⟨b, hb⟩ := hs d.id
    rw [exec_refuseDuplicates_cons seen rest hb]
    split
    · rename_i hrepeated
      simp [Repeated, hb, hrepeated, eq_comm]
    · rename_i hnew
      simp [Repeated, hb, hnew]

/-- A batch passes if its ids are all different and new. -/
theorem refuseDuplicates_eq_ok_iff (hs : ∀ id, ∃ b, Backend.hasDocument a id s = .ok b) :
    ∀ seen, ((refuseDuplicates a c seen documents).exec s).1 = .ok () ↔
      (documents.map (·.id)).Nodup ∧
        ∀ d ∈ documents, Backend.hasDocument a d.id s = .ok false ∧ d.id ∉ seen := by
  induction documents with
  | nil =>
    intro seen
    have hnil : ((refuseDuplicates a c seen []).exec s).1 = .ok () := rfl
    simp [hnil]
  | cons d rest ih =>
    intro seen
    obtain ⟨b, hb⟩ := hs d.id
    rw [exec_refuseDuplicates_cons seen rest hb, List.map_cons, List.nodup_cons,
      List.forall_mem_cons, hb]
    split
    · rename_i hrepeated
      rcases hrepeated with rfl | hseen
      · simp
      · simp [hseen]
    · rename_i hnew
      obtain ⟨hb, hseen⟩ := not_or.mp hnew
      rw [ih, eq_false_of_ne_true hb]
      constructor
      · rintro ⟨hnodup, hrest⟩
        refine ⟨⟨fun hd => ?_, hnodup⟩, ⟨rfl, hseen⟩, fun e he => ?_⟩
        · obtain ⟨e, he, hid⟩ := List.mem_map.mp hd
          exact (hrest e he).2 (hid ▸ List.mem_cons_self ..)
        · exact ⟨(hrest e he).1, fun h => (hrest e he).2 (List.mem_cons_of_mem _ h)⟩
      · rintro ⟨⟨hd, hnodup⟩, -, hrest⟩
        refine ⟨hnodup, fun e he => ⟨(hrest e he).1, fun h => ?_⟩⟩
        rcases List.mem_cons.mp h with hid | h
        · exact hd (hid ▸ List.mem_map_of_mem (f := fun d : Document => d.id) he)
        · exact (hrest e he).2 h

lemma misfit_iff {d : Document} {v : Embedding} {n : ℕ} (hv : d.embedding = some v) :
    Misfit (some n) d fault ↔ if v.isFinite then n ≠ v.length ∧ fault = .dimensionMismatch n v.length
      else fault = .embedding ("Document '" ++ d.id ++ "' has a non-finite embedding component") := by
  constructor
  · intro h
    cases h with
    | notFinite h hfinite =>
      obtain rfl := Option.some.inj (hv.symm.trans h)
      simp [hfinite]
    | length h hfinite hn hlength =>
      obtain rfl := Option.some.inj (hv.symm.trans h)
      obtain rfl := Option.some.inj hn
      simp [hfinite, hlength]
  · intro h
    split at h
    · rename_i hfinite
      obtain ⟨hlength, rfl⟩ := h
      exact .length hv hfinite rfl hlength
    · rename_i hfinite
      subst h
      exact .notFinite hv (eq_false_of_ne_true hfinite)

lemma commonDimension_none_cons {d : Document} {v : Embedding} (hv : d.embedding = some v)
    (rest : List Document) :
    commonDimension none (d :: rest) = commonDimension (some v.length) (d :: rest) := by
  simp [commonDimension, hv]

/-- **A batch of completed documents is refused for its first embedding that is not finite or has
another length** than the collection's dimension, or else than the first one. -/
theorem commonDimension_eq_error_iff {dimension : Option ℕ}
    (hd : ∀ d ∈ documents, d.embedding.isSome) :
    commonDimension dimension documents = .error fault ↔
      FirstFault (fun _ => Misfit (settled dimension documents)) documents fault := by
  have hsome : ∀ n, commonDimension (some n) documents = .error fault ↔
      FirstFault (fun _ => Misfit (some n)) documents fault := by
    intro n
    induction documents with
    | nil => simp [commonDimension]
    | cons d rest ih =>
      obtain ⟨hd, hrest⟩ := List.forall_mem_cons.mp hd
      obtain ⟨v, hv⟩ := Option.isSome_iff_exists.mp hd
      simp only [firstFault_cons, misfit_iff hv, ← ih hrest, commonDimension, hv]
      cases v.isFinite with
      | false => simp [eq_comm]
      | true =>
        by_cases hn : n = v.length
        · simp [hn]
        · simp [hn, eq_comm]
  cases dimension with
  | some n => exact hsome n
  | none =>
    cases documents with
    | nil => simp [commonDimension]
    | cons d rest =>
      obtain ⟨v, hv⟩ := Option.isSome_iff_exists.mp (hd d (List.mem_cons_self ..))
      have hsettled : settled none (d :: rest) = some v.length := by simp [settled, hv]
      rw [commonDimension_none_cons hv, hsome, hsettled]

end Holdings

end SemanticStore
