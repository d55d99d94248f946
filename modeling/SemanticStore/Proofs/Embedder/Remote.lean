import SemanticStore.Embedder.Remote
import SemanticStore.Proofs.Action

/-!
# Asking a server

What passes between a remote embedder and a server. The requests made for one text are an `Enquiry`:
it goes on while the answers hold no vector, for three requests at most (`Enquiry.Proper`).

The requests made for several texts are one enquiry after the other, one for each text that is not
blank, up to the first that fails; the server's answers are taken in the order in which they come
(`Remote.Conversation`, `Remote.exec_embedTexts`).
-/

namespace SemanticStore

open SemanticStore.Action

/-- The vector in an answer, if the answer is good and can be read. -/
def Outcome.vector? : Outcome → Option Embedding
  | .reply answer =>
      if 200 ≤ answer.status ∧ answer.status < 300 then
        Remote.onlyField? "embedding" Document.embedding? answer.body
      else none
  | .unreachable _ => none

/-- The requests made for a text, by what became of them. -/
structure Enquiry where
  text : String
  earlier : List Outcome
  last : Outcome

namespace Enquiry

def outcomes (q : Enquiry) : List Outcome := q.earlier ++ [q.last]

/-- Every request asks for the text. -/
def sent (q : Enquiry) : List (String × Outcome) := q.outcomes.map fun o => (q.text, o)

end Enquiry

namespace Remote

variable {r : Remote} {server : Server} {x : Exchange} {text : String} {o : Outcome}

/-! ### One request -/

/-- What a request comes to. -/
def result (r : Remote) : Outcome → Except Fault Embedding
  | .reply answer => r.read answer
  | .unreachable reason => .error (.embedding ("Failed to send request to Ollama: " ++ reason))

lemma result_of_vector {e : Embedding} (h : o.vector? = some e) :
    r.result o = if e.length = r.dimensions then .ok (if r.normalize then e.normalize else e)
      else .error (.dimensionMismatch r.dimensions e.length) := by
  cases o with
  | unreachable reason => cases h
  | reply reply =>
    unfold Outcome.vector? at h
    dsimp only at h
    split at h
    · rename_i hstatus
      unfold result read
      dsimp only
      rw [if_pos hstatus, h]
    · cases h

lemma result_of_not_vector (h : o.vector? = none) : ∃ why, r.result o = .error (.embedding why) := by
  cases o with
  | unreachable reason => exact ⟨_, rfl⟩
  | reply reply =>
    unfold Outcome.vector? at h
    unfold result read
    dsimp only at h ⊢
    split at h
    · rename_i hstatus
      rw [if_pos hstatus, h]
      exact ⟨_, rfl⟩
    · rename_i hstatus
      rw [if_neg hstatus]
      exact ⟨_, rfl⟩

/-- Another request is only made where there was no vector. -/
lemma worthRetrying_iff {fault : Fault} (h : r.result o = .error fault) :
    worthRetrying fault = true ↔ o.vector? = none := by
  cases hv : o.vector? with
  | none =>
    obtain ⟨why, hwhy⟩ := result_of_not_vector (r := r) hv
    rw [hwhy] at h
    cases h
    exact iff_of_true rfl rfl
  | some e =>
    rw [result_of_vector hv] at h
    split at h
    · cases h
    · cases h
      exact iff_of_false nofun nofun

/-- The request that reaches the server, unless it cannot be reached. -/
def delivered? (r : Remote) : String × Outcome → Option EmbedRequest
  | (text, .reply _) => some ⟨r.baseUrl ++ endpoint, r.model, text⟩
  | (_, .unreachable _) => none

/-- An exchange after requests with these prompts and outcomes. -/
def after (r : Remote) (x : Exchange) (sent : List (String × Outcome)) : Exchange :=
  ⟨x.attempts + sent.length, x.received ++ sent.filterMap r.delivered?⟩

lemma after_nil : r.after x [] = x := by simp [after]

lemma after_append (s t : List (String × Outcome)) : r.after x (s ++ t) = r.after (r.after x s) t := by
  simp [after, Nat.add_assoc]

lemma exec_request (r : Remote) (server : Server) (text : String) (x : Exchange) :
    (r.request server text).exec x =
      (r.result (server x.attempts), r.after x [(text, server x.attempts)]) := by
  rw [request, exec_of]
  cases server x.attempts with
  | unreachable reason => simp [result, after, delivered?]
  | reply reply => simp [result, after, delivered?]

/-- The requests met the outcomes that the server has from its `k`th request on. -/
def Meets (server : Server) (k : ℕ) (sent : List (String × Outcome)) : Prop :=
  sent.map (·.2) = (List.range' k sent.length).map server

lemma meets_one (server : Server) (k : ℕ) (text : String) : Meets server k [(text, server k)] := rfl

lemma meets_append {k : ℕ} {s t : List (String × Outcome)} (hs : Meets server k s)
    (ht : Meets server (k + s.length) t) : Meets server k (s ++ t) := by
  unfold Meets at *
  rw [List.map_append, hs, ht, List.length_append, ← List.map_append, List.range'_append_1]

end Remote

/-! ### One text -/

/-- The requests for a text are repeated while there is no vector, up to a limit. -/
structure Enquiry.Proper (r : Remote) (limit : ℕ) (q : Enquiry) : Prop where
  length_le : q.outcomes.length ≤ limit
  failed : ∀ o ∈ q.earlier, o.vector? = none
  /-- without a vector, the requests are all made, and the last of them tells why they failed -/
  exhausted : q.last.vector? = none →
    q.outcomes.length = limit ∧ ∃ why, r.result q.last = .error (.embedding why)
  /-- a vector is the last answer, whether it has the right length or not -/
  found : ∀ e, q.last.vector? = some e → r.result q.last =
    if e.length = r.dimensions then .ok (if r.normalize then e.normalize else e)
    else .error (.dimensionMismatch r.dimensions e.length)

namespace Enquiry.Proper

variable {r : Remote} {limit : ℕ} {text : String} {q : Enquiry} {o : Outcome} {v : Embedding}

lemma once_of_vector {e : Embedding} (h : o.vector? = some e) :
    (⟨text, [], o⟩ : Enquiry).Proper r (limit + 1) where
  length_le := by simp [Enquiry.outcomes]
  failed := by simp
  exhausted hnone := by simp [h] at hnone
  found _ hfound := Remote.result_of_vector hfound

lemma once_of_limit : (⟨text, [], o⟩ : Enquiry).Proper r 1 where
  length_le := by simp [Enquiry.outcomes]
  failed := by simp
  exhausted hnone := ⟨rfl, Remote.result_of_not_vector hnone⟩
  found _ hfound := Remote.result_of_vector hfound

lemma cons (h : q.Proper r limit) (ho : o.vector? = none) :
    (⟨q.text, o :: q.earlier, q.last⟩ : Enquiry).Proper r (limit + 1) where
  length_le := Nat.succ_le_succ h.length_le
  failed o' ho' := by
    rcases List.mem_cons.mp ho' with rfl | ho'
    · exact ho
    · exact h.failed o' ho'
  exhausted hnone := by
    obtain ⟨hlength, hwhy⟩ := h.exhausted hnone
    exact ⟨congrArg (· + 1) hlength, hwhy⟩
  found := h.found

lemma length_result (h : q.Proper r limit) (hv : r.result q.last = .ok v) :
    v.length = r.dimensions := by
  cases hlast : q.last.vector? with
  | none =>
    obtain ⟨-, why, hwhy⟩ := h.exhausted hlast
    rw [hwhy] at hv
    cases hv
  | some e =>
    rw [h.found e hlast] at hv
    split at hv
    · rename_i hlength
      obtain rfl := Except.ok.inj hv
      split
      · rw [Embedding.length_normalize, hlength]
      · exact hlength
    · cases hv

end Enquiry.Proper

namespace Remote

variable {r : Remote} {server : Server} {x : Exchange} {text : String}

/-- **A text is asked for until there is a vector**, `n + 1` times at most. -/
theorem exec_persist (r : Remote) (server : Server) (text : String) (n : ℕ) (x : Exchange) :
    ∃ q : Enquiry, q.text = text ∧ q.Proper r (n + 1) ∧ Meets server x.attempts q.sent ∧
      (r.persist server text n).exec x = (r.result q.last, r.after x q.sent) := by
  induction n generalizing x with
  | zero =>
    exact ⟨⟨text, [], server x.attempts⟩, rfl, .once_of_limit, meets_one .., exec_request ..⟩
  | succ n ih =>
    rw [persist, exec_of, exec_request]
    cases hvector : (server x.attempts).vector? with
    | some e =>
      -- the request ends the enquiry, with success or not
      refine ⟨⟨text, [], server x.attempts⟩, rfl, .once_of_vector hvector, meets_one .., ?_⟩
      cases hresult : r.result (server x.attempts) with
      | ok v => rfl
      | error fault =>
        have hfinal := mt (worthRetrying_iff hresult).mp (by simp [hvector])
        dsimp only
        rw [if_neg hfinal]
        rfl
    | none =>
      obtain ⟨why, hwhy⟩ := result_of_not_vector (r := r) hvector
      obtain ⟨q, rfl, hproper, hmeets, hq⟩ := ih (r.after x [(text, server x.attempts)])
      have hagain := (worthRetrying_iff hwhy).mpr hvector
      refine ⟨⟨q.text, server x.attempts :: q.earlier, q.last⟩, rfl, hproper.cons hvector,
        meets_append (meets_one ..) hmeets, ?_⟩
      rw [hwhy]
      dsimp only
      rw [if_pos hagain, hq, ← after_append]
      rfl

/-! ### Several texts -/

/-- The vectors of texts: zero vectors for blank ones, else what the enquiries gave, in order. -/
structure Served (r : Remote) (texts : List String) (enquiries : List Enquiry)
    (vectors : List Embedding) : Prop where
  length_eq : vectors.length = texts.length
  dimensions : ∀ v ∈ vectors, v.length = r.dimensions
  blank : ∀ p ∈ texts.zip vectors, Text.trim p.1.toList = [] → p.2 = Embedding.zeros r.dimensions
  found : ((texts.zip vectors).filter fun p => Text.trim p.1.toList ≠ []).map
    (fun p => (p.1, .ok p.2)) = enquiries.map fun q => (q.text, r.result q.last)

namespace Served

variable {texts : List String} {enquiries : List Enquiry} {vectors : List Embedding} {q : Enquiry}
  {v : Embedding}

lemma nil : Served r [] [] [] where
  length_eq := rfl
  dimensions _ h := absurd h List.not_mem_nil
  blank _ h := absurd h List.not_mem_nil
  found := rfl

lemma cons_blank (htext : Text.trim text.toList = []) (h : Served r texts enquiries vectors) :
    Served r (text :: texts) enquiries (Embedding.zeros r.dimensions :: vectors) where
  length_eq := congrArg (· + 1) h.length_eq
  dimensions := List.forall_mem_cons.mpr ⟨List.length_replicate, h.dimensions⟩
  blank := List.forall_mem_cons.mpr ⟨fun _ => rfl, h.blank⟩
  found := by
    rw [List.zip_cons_cons, List.filter_cons_of_neg (by simpa using htext)]
    exact h.found

lemma cons_answered (htext : Text.trim q.text.toList ≠ []) (hv : r.result q.last = .ok v)
    (hlength : v.length = r.dimensions) (h : Served r texts enquiries vectors) :
    Served r (q.text :: texts) (q :: enquiries) (v :: vectors) where
  length_eq := congrArg (· + 1) h.length_eq
  dimensions := List.forall_mem_cons.mpr ⟨hlength, h.dimensions⟩
  blank := List.forall_mem_cons.mpr ⟨fun hblank => absurd hblank htext, h.blank⟩
  found := by
    rw [List.zip_cons_cons, List.filter_cons_of_pos (by simpa using htext), List.map_cons,
      List.map_cons, h.found, hv]

end Served

/-- A server is asked for texts, from an exchange on, with this outcome and this exchange after it. -/
structure Conversation (r : Remote) (server : Server) (x : Exchange) (texts : List String)
    (enquiries : List Enquiry) (outcome : Except Fault (List Embedding) × Exchange) : Prop where
  /-- texts are asked for in order, except for blank ones -/
  asked : enquiries.map (·.text) <+: texts.filter fun text => Text.trim text.toList ≠ []
  proper : ∀ q ∈ enquiries, q.Proper r 3
  /-- the answers to one text start where those to the text before it end -/
  meets : Meets server x.attempts (enquiries.flatMap (·.sent))
  after : outcome.2 = r.after x (enquiries.flatMap (·.sent))
  ok : ∀ vectors, outcome.1 = .ok vectors → Served r texts enquiries vectors
  /-- nothing is asked after an enquiry that fails -/
  failed : ∀ fault, outcome.1 = .error fault → ∃ done q, enquiries = done ++ [q] ∧
    r.result q.last = .error fault ∧ ∀ p ∈ done, ∃ v, r.result p.last = .ok v

namespace Conversation

variable {texts : List String} {enquiries : List Enquiry} {out : Except Fault (List Embedding)}
  {x' : Exchange} {q : Enquiry} {v : Embedding} {fault : Fault}

lemma nil : Conversation r server x [] [] (.ok [], x) where
  asked := List.prefix_refl _
  proper _ h := absurd h List.not_mem_nil
  meets := rfl
  after := after_nil.symm
  ok _ h := by
    cases h
    exact .nil
  failed _ h := by cases h

lemma blank (htext : Text.trim text.toList = [])
    (h : Conversation r server x texts enquiries (out, x')) :
    Conversation r server x (text :: texts) enquiries
      (out.map (Embedding.zeros r.dimensions :: ·), x') where
  asked := by
    rw [List.filter_cons_of_neg (by simpa using htext)]
    exact h.asked
  proper := h.proper
  meets := h.meets
  after := h.after
  ok vectors hok := by
    obtain ⟨rest, hrest, rfl⟩ := exists_of_map_eq_ok hok
    exact (h.ok rest hrest).cons_blank htext
  failed fault hfault := h.failed fault (map_eq_error_iff.mp hfault)

lemma answered (htext : Text.trim q.text.toList ≠ []) (hproper : q.Proper r 3)
    (hmeets : Meets server x.attempts q.sent) (hv : r.result q.last = .ok v)
    (h : Conversation r server (r.after x q.sent) texts enquiries (out, x')) :
    Conversation r server x (q.text :: texts) (q :: enquiries) (out.map (v :: ·), x') where
  asked := by
    rw [List.filter_cons_of_pos (by simpa using htext), List.map_cons]
    exact List.cons_prefix_cons.mpr ⟨rfl, h.asked⟩
  proper := List.forall_mem_cons.mpr ⟨hproper, h.proper⟩
  meets := meets_append hmeets h.meets
  after := by
    rw [List.flatMap_cons, after_append]
    exact h.after
  ok vectors hok := by
    obtain ⟨rest, hrest, rfl⟩ := exists_of_map_eq_ok hok
    exact (h.ok rest hrest).cons_answered htext hv (hproper.length_result hv)
  failed fault hfault := by
    obtain ⟨done, last, rfl, hlast, hdone⟩ := h.failed fault (map_eq_error_iff.mp hfault)
    exact ⟨q :: done, last, rfl, hlast, List.forall_mem_cons.mpr ⟨⟨v, hv⟩, hdone⟩⟩

lemma unanswered (htext : Text.trim q.text.toList ≠ []) (hproper : q.Proper r 3)
    (hmeets : Meets server x.attempts q.sent) (hfault : r.result q.last = .error fault) :
    Conversation r server x (q.text :: texts) [q] (.error fault, r.after x q.sent) where
  asked := by
    rw [List.filter_cons_of_pos (by simpa using htext)]
    exact List.cons_prefix_cons.mpr ⟨rfl, List.nil_prefix⟩
  proper := List.forall_mem_singleton.mpr hproper
  meets := by rwa [List.flatMap_singleton]
  after := by rw [List.flatMap_singleton]
  ok _ hok := by cases hok
  failed fault' hfault' := by
    cases hfault'
    exact ⟨[], q, rfl, hfault, by simp⟩

end Conversation

lemma exec_embedTexts_blank {rest : List String} (h : Text.isBlankText text = true) :
    (r.embedTexts server (text :: rest)).exec x =
      (((r.embedTexts server rest).exec x).1.map (Embedding.zeros r.dimensions :: ·),
        ((r.embedTexts server rest).exec x).2) := by
  rw [embedTexts, if_pos h, pure_bind]
  exact exec_bind_pure ..

lemma exec_embedTexts_unanswered {rest : List String} {fault : Fault} {x' : Exchange}
    (h : Text.isBlankText text = false) (hexec : (r.embedText server text).exec x = (.error fault, x')) :
    (r.embedTexts server (text :: rest)).exec x = (.error fault, x') := by
  rw [embedTexts, if_neg (Bool.eq_false_iff.mp h), exec_bind, hexec]

lemma exec_embedTexts_answered {rest : List String} {v : Embedding} {x' : Exchange}
    (h : Text.isBlankText text = false) (hexec : (r.embedText server text).exec x = (.ok v, x')) :
    (r.embedTexts server (text :: rest)).exec x =
      (((r.embedTexts server rest).exec x').1.map (v :: ·),
        ((r.embedTexts server rest).exec x').2) := by
  rw [embedTexts, if_neg (Bool.eq_false_iff.mp h), exec_bind, hexec]
  exact exec_bind_pure ..

/-- **Each text that is not blank is asked for in turn, up to the first that fails.** Whatever the
server answers, the requests for a text follow one another and are three at most; they end with the
first vector, which is taken if it has the right length, or with the third failure, which is the
fault. If none fails there is a vector for each text. -/
theorem exec_embedTexts (r : Remote) (server : Server) (texts : List String) (x : Exchange) :
    ∃ enquiries, Conversation r server x texts enquiries ((r.embedTexts server texts).exec x) := by
  induction texts generalizing x with
  | nil => exact ⟨[], .nil⟩
  | cons text rest ih =>
    cases hblank : Text.isBlankText text with
    | true =>
      obtain ⟨enquiries, h⟩ := ih x
      rw [exec_embedTexts_blank hblank]
      exact ⟨enquiries, h.blank (Text.trim_eq_nil_iff.mpr hblank)⟩
    | false =>
      have htext : Text.trim text.toList ≠ [] := by
        rw [Ne, Text.trim_eq_nil_iff, hblank]
        exact Bool.false_ne_true
      obtain ⟨q, rfl, hproper, hmeets, hexec⟩ := exec_persist r server text (maxAttempts - 1) x
      cases hresult : r.result q.last with
      | error fault =>
        rw [hresult] at hexec
        rw [exec_embedTexts_unanswered hblank hexec]
        exact ⟨[q], .unanswered htext hproper hmeets hresult⟩
      | ok v =>
        rw [hresult] at hexec
        obtain ⟨enquiries, h⟩ := ih (r.after x q.sent)
        rw [exec_embedTexts_answered hblank hexec]
        exact ⟨q :: enquiries, h.answered htext hproper hmeets hresult⟩

/-- A server that is busy, then cannot be reached, then answers, but with too few components from the
fourth request on. -/
def wavering : Server
  | 0 => .reply ⟨503, "busy"⟩
  | 1 => .unreachable "connection refused"
  | 2 => .reply ⟨200, "\x7b\"embedding\":[1,0]\x7d"⟩
  | _ => .reply ⟨200, "\x7b\"embedding\":[1]\x7d"⟩

/-- The first text takes three requests, of which one does not arrive; the last one is not asked for. -/
example :
    let served := ((⟨defaultUrl, "fox", 2, false⟩ : Remote).embedTexts wavering
      ["a fox", " ", "a wolf", "a hound"]).exec .start
    served.2.attempts = 4 ∧ served.2.received.map (·.prompt) = ["a fox", "a fox", "a wolf"] ∧
      fault? served.1 = some (.dimensionMismatch 2 1) := by
  decide +kernel

end Remote

end SemanticStore
