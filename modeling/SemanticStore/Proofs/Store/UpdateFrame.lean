import SemanticStore.Proofs.Store.Insertion

/-!
# What an update leaves as it is

An update puts its documents as an insertion does. But it looks all of them up before, so it has no
new ids: what it puts takes the places of documents that are stored (`Holdings.updated_of_merged`), and
all other documents stay (`Store.update_frame`). If some ids are not stored, they are the fault of the
update, whatever else is wrong with its documents (`Holdings.update_of_unstored`).
-/

namespace SemanticStore

open SemanticStore.Action

lemma Fidelity.name_of_textual {a : Address} {c c' : Collection}
    (h : textual.collection a c = .ok c') : c'.name = a.name := by
  unfold collection at h
  dsimp only at h
  split at h
  · cases h
  · cases h
    rfl

/-! ### Documents that a batch updates -/

/-- What becomes of a stored document when a batch is updated: it keeps its id, and all else if the
batch does not list it; otherwise it has the content and the embedding of the last document that does. -/
structure Document.Updated (batch : List Document) (old new : Document) : Prop where
  id : new.id = old.id
  other : old.id ∉ batch.map (·.id) → new = old
  listed : ∀ p, Documents.last? old.id batch = some p →
    new.content = p.content ∧ new.embedding = p.embedding

lemma Document.ids_of_updated {batch before after : List Document}
    (h : List.Forall₂ (Updated batch) before after) :
    after.map (·.id) = before.map (·.id) :=
  Documents.ids_of_forall₂ h fun _ _ hd => hd.id

namespace Documents

variable {id : String} {batch l : List Document}

lemma last?_eq_none_iff : last? id batch = none ↔ id ∉ batch.map (·.id) := by
  unfold last?
  rw [find?_eq_none_iff, List.map_reverse, List.mem_reverse]

lemma inserted_of_stored (h : ∀ d ∈ batch, d.id ∈ l.map (·.id)) :
    inserted batch l = l.map fun d => (last? d.id batch).getD d := by
  have hnew : newIds batch l = [] := by
    unfold newIds
    rw [List.filter_eq_nil_iff.mpr]
    · rfl
    · intro id hid
      obtain ⟨d, hd, rfl⟩ := List.mem_map.mp hid
      simpa using h d hd
  unfold inserted
  rw [hnew, List.filterMap_nil, List.append_nil]

end Documents

namespace Holdings

variable {σ : Type} [Backend σ] {a : Address} {s : σ} {documents prepared merged : List Document}
  {id : String}

lemma last?_merged (h : List.Forall₂ (Merged a s) prepared merged) (id : String) :
    Option.Rel (Merged a s) (Documents.last? id prepared) (Documents.last? id merged) := by
  have hfind : ∀ {l m : List Document}, List.Forall₂ (Merged a s) l m →
      Option.Rel (Merged a s) (Documents.find? id l) (Documents.find? id m) := by
    intro l m hlm
    induction hlm with
    | nil => exact .none
    | @cons d m _ _ hd _ ih =>
      rw [Documents.find?_cons, Documents.find?_cons, hd.id_eq]
      split
      · exact .some hd
      · exact ih
  exact hfind (List.rel_reverse h)

/-- **A batch that is merged updates the documents of the list into which it is inserted.** -/
theorem updated_of_merged {l : List Document} (h : List.Forall₂ (Merged a s) prepared merged)
    (hstored : ∀ m ∈ merged, m.id ∈ l.map (·.id)) :
    List.Forall₂ (Document.Updated prepared) l (Documents.inserted merged l) := by
  rw [Documents.inserted_of_stored hstored, List.forall₂_map_right_iff, List.forall₂_same]
  intro d _
  have hlast := last?_merged h d.id
  generalize Documents.last? d.id merged = o' at hlast
  cases ho : Documents.last? d.id prepared with
  | none =>
    rw [ho] at hlast
    cases hlast
    exact ⟨rfl, fun _ => rfl, fun p hp => by simp [ho] at hp⟩
  | some p =>
    rw [ho] at hlast
    cases hlast with
    | @some _ m hm =>
      have hid : p.id = d.id := by
        have hfound := List.find?_some ho
        simpa using hfound
      obtain ⟨old, -, rfl⟩ := hm
      refine ⟨hid, fun hother => ?_, fun p' hp' => ?_⟩
      · rw [Documents.last?_eq_none_iff.mpr hother] at ho
        cases ho
      · rw [ho] at hp'
        cases hp'
        exact ⟨rfl, rfl⟩

/-- The ids of a batch that are not stored, each as often as it comes. -/
def unstored (a : Address) (s : σ) (documents : List Document) : List String :=
  (documents.map (·.id)).filter fun id => Backend.hasDocument a id s = .ok false

/-- Every document of the batch is looked up: it is read, or is not stored. -/
def LookedUp (a : Address) (s : σ) (documents : List Document) : Prop :=
  ∀ d ∈ documents,
    (∃ old, Backend.document? a d.id s = .ok (some old) ∧ Backend.hasDocument a d.id s = .ok true) ∨
      Backend.document? a d.id s = .ok none ∧ Backend.hasDocument a d.id s = .ok false

theorem exec_merge_of_lookedUp (h : LookedUp a s documents) :
    ∃ merged, (merge a documents).exec s = (.ok (unstored a s documents, merged), s) := by
  induction documents with
  | nil => exact ⟨[], rfl⟩
  | cons d rest ih =>
    obtain ⟨hd, hrest⟩ := List.forall_mem_cons.mp h
    obtain ⟨merged, hmerged⟩ := ih hrest
    unfold merge
    rcases hd with ⟨old, hread, hhas⟩ | ⟨hread, hhas⟩
    · refine ⟨{ d with metadata := d.metadata.orElse fun _ => old.metadata } :: merged, ?_⟩
      rw [exec_bind, exec_read, hread]
      dsimp only
      rw [exec_bind, hmerged]
      have hkeep : unstored a s (d :: rest) = unstored a s rest := by
        simp [unstored, hhas]
      rw [hkeep]
      rfl
    · refine ⟨merged, ?_⟩
      rw [exec_bind, exec_read, hread]
      dsimp only
      rw [exec_bind, hmerged]
      have hadd : unstored a s (d :: rest) = d.id :: unstored a s rest := by
        simp [unstored, hhas]
      rw [hadd]
      rfl

/-- **An update is refused for all the ids that are not stored**, before its embeddings are checked. -/
theorem update_of_unstored {c : Collection} (h : LookedUp a s documents)
    (hne : unstored a s documents ≠ []) :
    ((update a c documents).exec s).1 =
      .error (.documentsMissing (unstored a s documents) c.name) := by
  cases documents with
  | nil => exact absurd rfl hne
  | cons d rest =>
    obtain ⟨merged, hmerged⟩ := exec_merge_of_lookedUp h
    have hsplit : update a c (d :: rest) = (do
        let r ← merge a (d :: rest)
        if !r.1.isEmpty then .fail (.documentsMissing r.1 c.name)
        write a c r.2 : Action σ Unit) := rfl
    rw [hsplit, exec_bind, hmerged]
    dsimp only
    rw [List.isEmpty_eq_false_iff.mpr hne]
    rfl

end Holdings

namespace Store

open Holdings (unstored)

/-- What an update leaves as it is, and how it refuses ids that are not stored. -/
structure UpdateFrame {σ : Type} [Backend σ] (f : Fidelity) (store : Store) (name : String)
    (documents : List Document) (w : World σ) : Prop where
  stored : ((store.update name documents).exec w).1 = .ok () → ∀ d ∈ documents,
    Backend.hasDocument (store.address name) d.id w.backend = .ok true
  /-- the documents stay in their places, and only those that are listed change; their embeddings are
  those that the batch brings, or those that the embedder answers -/
  kept : ((store.update name documents).exec w).1 = .ok () → ∃ prepared before after,
    Indexing.Prepares store.embedder w.calls store.batchSize documents prepared ∧
    Backend.Lists f (store.address name) before w.backend ∧
    Backend.Lists f (store.address name) after ((store.update name documents).exec w).2.backend ∧
    after.map (·.id) = before.map (·.id) ∧
    List.Forall₂ (Document.Updated prepared) before after
  unlisted : ((store.update name documents).exec w).1 = .ok () → ∀ id ∉ documents.map (·.id),
    Backend.document? (store.address name) id ((store.update name documents).exec w).2.backend =
      Backend.document? (store.address name) id w.backend
  /-- if what is stored can be read, the ids that are not stored come before all other faults -/
  missing : (∃ c, Shown (store.address name) c w.backend) →
    (∃ prepared, Indexing.Prepares store.embedder w.calls store.batchSize documents prepared) →
    (∀ d ∈ documents, Backend.hasDocument (store.address name) d.id w.backend = .ok true →
      ∃ old, Backend.document? (store.address name) d.id w.backend = .ok (some old)) →
    unstored (store.address name) w.backend documents ≠ [] →
    ((store.update name documents).exec w).1 = .error (.notFound
      ("documents [" ++ ", ".intercalate (unstored (store.address name) w.backend documents) ++
        "] in collection '" ++ name ++ "'"))

section Refinement

variable {σ : Type} [Backend σ] {f : Fidelity} {R : σ → Catalog f → Prop} {store : Store}
  {name : String} {documents prepared : List Document} {w : World σ} {v : World (Catalog f)}

/-- What is listed before and after an update that succeeds. -/
theorem update_lists (hR : Backend.Refinement R) (hwv : World.Related R w v)
    (hsound : v.backend.Sound) (hok : ((store.update name documents).exec w).1 = .ok ()) :
    ∃ prepared before after,
      ((Indexing.embedMissing store.embedder store.batchSize documents).exec w.calls).1 =
        .ok prepared ∧
      Backend.Lists f (store.address name) before w.backend ∧
      Backend.Lists f (store.address name) after ((store.update name documents).exec w).2.backend ∧
      (∀ d ∈ prepared, d.id ∈ before.map (·.id)) ∧
      List.Forall₂ (Document.Updated prepared) before after := by
  obtain ⟨hreply, hafter⟩ := update_sim store hR trivial name documents hwv
  obtain ⟨h, h', prepared, merged, hh, hp, hmerged, hbackend, hwritten⟩ :=
    update_effect (Agree.eq_iff.mp hreply ▸ hok)
  have hids := hsound.ids_of_find? hh
  have hbefore := Catalog.lists hsound hh
  rw [Catalog.documentsAt_of_find? hh] at hbefore
  have hlists := Catalog.lists_store hsound
    (hwritten.documents ▸ Documents.nodup_putAll hids) (store.address name)
  rw [hwritten.documents, Documents.putAll_eq_inserted hids, ← hbackend] at hlists
  have hstored : ∀ d ∈ prepared, d.id ∈ h.documents.map (·.id) := by
    intro d hd
    obtain ⟨_, -, old, hold, -⟩ := exists_mem_of_forall₂ hmerged hd
    by_contra hnew
    rw [hbefore.absent d.id hnew] at hold
    cases hold
  have hstored' : ∀ m ∈ merged, m.id ∈ h.documents.map (·.id) := by
    intro m hm
    obtain ⟨d, hd, hdm⟩ := exists_mem_of_forall₂ hmerged.flip hm
    rw [Holdings.Merged.id_eq hdm]
    exact hstored d hd
  exact ⟨prepared, h.documents, _, hwv.2 ▸ hp, hbefore.of_refinement hR hwv.1,
    hlists.of_refinement hR hafter.1, hstored, Holdings.updated_of_merged hmerged hstored'⟩

/-- Where documents are listed, an update looks up those that can be read. -/
lemma lookedUp_of_lists {a : Address} {s : σ} {before : List Document}
    (hbefore : Backend.Lists f a before s)
    (hread : ∀ d ∈ documents, Backend.hasDocument a d.id s = .ok true →
      ∃ old, Backend.document? a d.id s = .ok (some old)) :
    Holdings.LookedUp a s documents := by
  intro d hd
  have hhas := hbefore.has d.id
  by_cases hmem : d.id ∈ before.map (·.id)
  · rw [decide_eq_true hmem] at hhas
    obtain ⟨old, hold⟩ := hread d hd hhas
    exact .inl ⟨old, hold, hhas⟩
  · rw [decide_eq_false hmem] at hhas
    exact .inr ⟨hbefore.absent d.id hmem, hhas⟩

/-- **Updates do this on every backend that refines a catalog.** -/
theorem updateFrame_of_refinement (hR : Backend.Refinement R) (hwv : World.Related R w v)
    (hsound : v.backend.Sound)
    (hname : ∀ c, Shown (store.address name) c v.backend → c.name = name) :
    UpdateFrame f store name documents w where
  stored hok d hd := by
    obtain ⟨prepared, before, -, hp, hbefore, -, hstored, -⟩ := update_lists hR hwv hsound hok
    have hcompletes := Indexing.completes_embedMissing hp
    obtain ⟨d', hd', hcomplete⟩ := exists_mem_of_forall₂ hcompletes hd
    rw [hbefore.has, decide_eq_true (hcomplete.id ▸ hstored d' hd')]
  kept hok := by
    obtain ⟨prepared, before, after, hp, hbefore, hafter, -, hupdated⟩ :=
      update_lists hR hwv hsound hok
    exact ⟨prepared, before, after, Indexing.embedMissing_eq_ok_iff_prepares.mp hp, hbefore, hafter,
      Document.ids_of_updated hupdated, hupdated⟩
  unlisted hok id hid := by
    obtain ⟨prepared, before, after, hp, hbefore, hafter, -, hupdated⟩ :=
      update_lists hR hwv hsound hok
    rw [← Indexing.ids_of_completes (Indexing.completes_embedMissing hp)] at hid
    by_cases hmem : id ∈ before.map (·.id)
    · obtain ⟨d, hd, rfl⟩ := List.mem_map.mp hmem
      obtain ⟨d', hd', hdd⟩ := exists_mem_of_forall₂ hupdated hd
      obtain rfl := hdd.other hid
      rw [hafter.stored d' hd', hbefore.stored d' hd]
    · have hmem' : id ∉ after.map (·.id) := Document.ids_of_updated hupdated ▸ hmem
      rw [hafter.absent id hmem', hbefore.absent id hmem]
  missing := by
    rintro ⟨c, hc⟩ ⟨prepared, hprepares⟩ hread hne
    have hp := Indexing.embedMissing_eq_ok_iff_prepares.mpr hprepares
    have hc' := (shown_iff hR hwv.1).mp hc
    obtain ⟨h, hh, -⟩ := Catalog.exists_of_shown hc'
    have hbefore := (Catalog.lists hsound hh).of_refinement hR hwv.1
    have hcompletes := Indexing.completes_embedMissing hp
    have hsame : unstored (store.address name) w.backend documents =
        unstored (store.address name) w.backend prepared := by
      unfold unstored
      rw [Indexing.ids_of_completes hcompletes]
    have hlookedUp : Holdings.LookedUp (store.address name) w.backend prepared := by
      apply lookedUp_of_lists hbefore
      intro p hpm hhas
      obtain ⟨d, hd, hcomplete⟩ := exists_mem_of_forall₂ hcompletes.flip hpm
      rw [hcomplete.id] at hhas ⊢
      exact hread d hd hhas
    rw [hsame] at hne ⊢
    unfold update
    rw [exec_index hc (Prod.ext hp rfl)]
    dsimp only
    rw [Holdings.update_of_unstored hlookedUp hne, hname c hc']
    rfl

end Refinement

/-- **Wherever calls lead to on memory or on tables, an update changes the documents it lists, where
they are, and nothing else**, and is refused for the ids that are not stored. -/
theorem update_frame (store : Store) (name : String) (documents : List Document) :
    (∀ w : World Memory, Reachable Memory.empty w →
      UpdateFrame .exact store name documents w) ∧
    ∀ w : World Tables, Reachable Tables.empty w →
      UpdateFrame .textual store name documents w := by
  constructor
  · intro w hw
    obtain ⟨v, hv, hwv⟩ := hw.related Memory.refinement Memory.shows_empty
    have hdescribed : v.backend.Described :=
      hv.invariant Catalog.described_empty fun store now =>
        ensures_described store (show Fidelity.exact.Dates now from trivial)
    refine updateFrame_of_refinement Memory.refinement hwv hv.sound fun c hc => ?_
    obtain ⟨h, c', hh, hread, rfl⟩ := Catalog.shown_iff_read.mp hc
    cases hread
    exact (hdescribed _ h (Keyed.mem_of_find? hh)).name
  · intro w hw
    obtain ⟨v, hv, hwv⟩ := hw.related Tables.refinement Tables.shows_empty
    refine updateFrame_of_refinement Tables.refinement hwv hv.sound fun c hc => ?_
    obtain ⟨h, c', -, hread, rfl⟩ := Catalog.shown_iff_read.mp hc
    exact Fidelity.name_of_textual hread

/-- A batch that lists one stored document twice, at last without an embedding. -/
def jackals : List Document :=
  [⟨"2", "a dingo", none, some [.zero]⟩, ⟨"2", "a jackal", none, none⟩]

/-- A batch with ids that are not stored and an embedding that does not fit. -/
def strays : List Document :=
  [⟨"4", "a lynx", none, some [.one, .one]⟩, ⟨"1", "the fox", none, none⟩,
    ⟨"3", "a puma", none, some [.one]⟩, ⟨"4", "a lynx", none, none⟩]

/-- The document that is listed is the jackal then, with the embedding that the embedder gives it, and
the other one stays; the ids that are not stored are all named. -/
theorem update_frame_jackals :
    let m := reached stocked Memory.empty
    let m' := ((foxes.update "animals" jackals).exec m).2
    let t := reached stocked Tables.empty
    ((foxes.update "animals" jackals).exec m).1 = .ok () ∧
      Backend.document? ⟨"default", "animals"⟩ "1" m'.backend =
        Backend.document? ⟨"default", "animals"⟩ "1" m.backend ∧
      (∃ d, Backend.document? ⟨"default", "animals"⟩ "2" m'.backend = .ok (some d) ∧
        d.content = "a jackal" ∧ d.embedding = some [⟨0xbf800000⟩]) ∧
      ((foxes.update "animals" strays).exec t).1 =
        .error (.notFound "documents [4, 3, 4] in collection 'animals'") := by
  intro m m' t
  have hok : ((foxes.update "animals" jackals).exec m).1 = .ok () := by decide +kernel
  have hframe := (update_frame foxes "animals" jackals).1 m (reachable_reached ..)
  have hrefuses := (update_frame foxes "animals" strays).2 t (reachable_reached ..)
  refine ⟨hok, hframe.unlisted hok "1" (by decide), ?_, ?_⟩
  · obtain ⟨prepared, before, after, hp, hbefore, hafter, -, hupdated⟩ := hframe.kept hok
    have hanswered : Indexing.Answered foxes.embedder m.calls [["a jackal"]]
        ([[⟨0xbf800000⟩]] ++ []) :=
      .cons rfl rfl .nil
    have hjackals : Indexing.Prepares foxes.embedder m.calls foxes.batchSize jackals
        [⟨"2", "a dingo", none, some [.zero]⟩, ⟨"2", "a jackal", none, some [⟨0xbf800000⟩]⟩] :=
      ⟨_, _, ⟨rfl, by decide, by decide, by decide⟩, hanswered, .attached rfl (.computed rfl .nil)⟩
    obtain rfl := hp.unique hjackals
    have hhas := hframe.stored hok _ (List.mem_cons_self ..)
    rw [hbefore.has, Except.ok.injEq, decide_eq_true_iff] at hhas
    obtain ⟨d, hd, hid⟩ := List.mem_map.mp hhas
    obtain ⟨d', hd', hdd⟩ := exists_mem_of_forall₂ hupdated hd
    obtain ⟨hcontent, hembedding⟩ :=
      hdd.listed ⟨"2", "a jackal", none, some [⟨0xbf800000⟩]⟩ (by rw [hid]; rfl)
    have hread := hafter.stored d' hd'
    rw [hdd.id, hid] at hread
    exact ⟨d', hread, hcontent, hembedding⟩
  · have hunstored : unstored (foxes.address "animals") t.backend strays = ["4", "3", "4"] := by
      decide +kernel
    have hthere : ((foxes.update "animals" jackals).exec t).1 = .ok () := by decide +kernel
    obtain ⟨c, -, -, hc, -⟩ := index_eq_ok hthere
    have hanswered : Indexing.Answered foxes.embedder t.calls [["the fox", "a lynx"]]
        ([[⟨0xbf800000⟩], [⟨0xbf800000⟩]] ++ []) :=
      .cons rfl rfl .nil
    have hstrays : ∃ prepared, Indexing.Prepares foxes.embedder t.calls foxes.batchSize strays
        prepared :=
      ⟨_, _, _, ⟨rfl, by decide, by decide, by decide⟩, hanswered,
        .attached rfl (.computed rfl (.attached rfl (.computed rfl .nil)))⟩
    -- of the ids that are listed, only that of the fox is stored
    have hread : ∀ d ∈ strays, Backend.hasDocument (foxes.address "animals") d.id t.backend =
        .ok true → ((Backend.document? (foxes.address "animals") d.id t.backend).map
          (Option.map (·.content))) = .ok (some "a fox") := by
      decide +kernel
    have hrefused := hrefuses.missing ⟨c, hc⟩ hstrays ?_ (by rw [hunstored]; decide)
    · rw [hunstored] at hrefused
      exact hrefused
    · intro d hd hhas
      obtain ⟨stored, hstored, hcontent⟩ := exists_of_map_eq_ok (hread d hd hhas)
      obtain ⟨old, rfl, -⟩ := Option.map_eq_some_iff.mp hcontent
      exact ⟨old, hstored⟩

end Store

end SemanticStore
