import SemanticStore.Proofs.Action
import SemanticStore.Proofs.Backend.Simulation
import SemanticStore.Store.Operations

/-!
# Requests to stores

`Store.Request` has one member for each operation of a store. A `Store.Call` is a request to some
store at some time; the stores of several calls may have any partitions, metrics and embedders.

* `Store.Reachable`: the worlds that calls lead to from a backend that has just been opened; that of
  a list of calls is `Store.reached`.
* `Store.replies`: what a list of calls results in, one reply or fault for each.
-/

namespace SemanticStore.Store

/-- An operation of a store with its arguments. -/
inductive Request where
  | create (name : String) (overwrite reuse : Bool)
  | describe (name : String)
  | drop (name : String)
  | names
  | hasCollection (name : String)
  | insert (name : String) (replacing : Bool) (documents : List Document)
  | update (name : String) (documents : List Document)
  | delete (name : String) (ids : List String)
  | select (name : String) (ids : Option (List String))
  | count (name : String)
  | retrieve (name : String) (queries : List String) (limit : Option ℕ) (threshold : Option Scalar)
  | search (name query : String)

/-- The name of the collection that a request writes to; none if it only reads. -/
def Request.written? : Request → Option String
  | create name _ _ => some name
  | drop name => some name
  | insert name _ _ => some name
  | update name _ => some name
  | delete name _ => some name
  | _ => none

/-- What an operation of a store results in. -/
inductive Reply where
  | done
  | collection (c : Collection)
  | names (ns : List String)
  | flag (b : Bool)
  | documents (ds : List Document)
  | number (n : ℕ)
  | hits (lists : List (List Hit))
  | nearest (list : List Hit)

section Perform

variable {σ : Type} [Backend σ]

/-- Carries out a request. -/
def Request.perform (store : Store) (now : Timestamp) : Request → Action (World σ) Reply
  | create name overwrite reuse => do
      return .collection (← store.create now name overwrite reuse)
  | describe name => do return .collection (← store.describe name)
  | drop name => do
      store.drop name
      return .done
  | names => do return .names (← store.names)
  | hasCollection name => do return .flag (← store.hasCollection name)
  | insert name replacing documents => do
      store.insert name replacing documents
      return .done
  | update name documents => do
      store.update name documents
      return .done
  | delete name ids => do
      store.delete name ids
      return .done
  | select name ids => do return .documents (← store.select name ids)
  | count name => do return .number (← store.count name)
  | retrieve name queries limit threshold => do
      return .hits (← store.retrieve name queries limit threshold)
  | search name query => do return .nearest (← store.search name query)

end Perform

/-- A request to a store at a time. -/
structure Call where
  store : Store
  now : Timestamp
  request : Request

/-- The partition that a call works in, as backends know it. -/
def Call.partition (c : Call) : String := c.store.partition.label

/-- The address that a call writes to; none if it only reads. -/
def Call.target? (c : Call) : Option Address := c.request.written?.map c.store.address

section Run

variable {σ : Type} [Backend σ]

/-- Carries out a call. -/
def Call.perform (c : Call) : Action (World σ) Reply := c.request.perform c.store c.now

/-- The world after a call. -/
def Call.after (c : Call) (w : World σ) : World σ := (c.perform.exec w).2

/-- What calls made one after the other result in. -/
def replies : List Call → World σ → List (Except Fault Reply)
  | [], _ => []
  | c :: rest, w => (c.perform.exec w).1 :: replies rest (c.after w)

/-- The worlds that calls lead to from a backend. -/
inductive Reachable (backend : σ) : World σ → Prop
  | opened : Reachable backend (.opened backend)
  | after {w : World σ} (h : Reachable backend w) (c : Call) : Reachable backend (c.after w)

/-- The world that calls, made one after the other, lead to from a backend. -/
def reached (calls : List Call) (s : σ) : World σ :=
  calls.foldl (fun w c => c.after w) (.opened s)

theorem reachable_reached (calls : List Call) (s : σ) : Reachable s (reached calls s) := by
  have hfold : ∀ {w : World σ}, Reachable s w →
      Reachable s (calls.foldl (fun w c => c.after w) w) := by
    induction calls with
    | nil => exact id
    | cons c rest ih => exact fun hw => ih (hw.after c)
  exact hfold .opened

end Run

/-- A store whose embedder always fails, for documents that bring their embeddings. -/
def offline (partition : Partition) : Store :=
  { new ⟨"none", "none", 0, fun _ _ => .error (.embedding "no embedder")⟩ with
    partition := partition }

/-- A store whose embedder tells foxes, at 1, from all else, at -1. Two texts are embedded at once. -/
def foxes : Store :=
  { new ⟨"foxes", "sign", 1, fun _ texts => .ok <| texts.map fun text =>
      if text ∈ ["a fox", "vixen"] then [.one] else [⟨0xbf800000⟩]⟩ with
    batchSize := 2 }

/-- A second of the first minute of 1970. -/
def instant (second : ℕ) : Timestamp :=
  ⟨⟨1970, 1, 1, 0, 0, second % 60, 0⟩, by simp [Moment.Valid, daysInMonth]; omega⟩

/-! ### Replies and calls that are alike -/

/-- Replies that are equal but for the times of descriptors, which are related by `T`. -/
inductive Reply.Alike (T : Timestamp → Timestamp → Prop) : Reply → Reply → Prop
  | collection {c d : Collection} (h : c.Alike T d) : Alike T (.collection c) (.collection d)
  | same (r : Reply) : Alike T r r

theorem Reply.Alike.eq {r r' : Reply} (h : r.Alike Eq r') : r = r' := by
  cases h with
  | collection h => rw [h.eq]
  | same r => rfl

/-- Calls that are equal but for their times, which are related by `T`. -/
structure Call.Alike (T : Timestamp → Timestamp → Prop) (c d : Call) : Prop where
  store : c.store = d.store
  now : T c.now d.now
  request : c.request = d.request

end SemanticStore.Store
