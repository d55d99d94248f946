import SemanticStore.Proofs.Store.Histories

/-!
# Descriptors do not change

From its creation until it is dropped or overwritten, a collection keeps the metric of the store that
created it and the time of its creation, whatever stores with whatever metrics work on it. Its
dimension is fixed once, by the first document of the first batch that is inserted into it
(`Store.insertedLengths`), and stays when all documents are deleted.

On a catalog each call that does not remove the collection takes one step of this history
(`Store.Call.descriptor_after`), and a run takes them all (`Store.descriptor_afterAll`).
-/

namespace SemanticStore.Store

open SemanticStore.Action

/-! ### Lengths that are inserted -/

section Inserted

variable {σ : Type} [Backend σ]

/-- The length of the first embedding of a batch, if the call has inserted one at an address. -/
def Call.inserted? (a : Address) (c : Call) (w : World σ) : Option ℕ :=
  match c.request with
  | .insert name _ documents =>
      if c.store.address name = a ∧ fault? (c.perform.exec w).1 = none then
        match ((Indexing.embedMissing c.store.embedder c.store.batchSize documents).exec w.calls).1 with
        | .ok prepared => prepared.head?.bind fun d => d.embedding.map List.length
        | .error _ => none
      else none
  | _ => none

/-- The length of the first embedding of each batch that is inserted at an address along a run, for
batches that are not empty. -/
def insertedLengths (a : Address) : List Call → World σ → List ℕ
  | [], _ => []
  | c :: rest, w => (c.inserted? a w).toList ++ insertedLengths a rest (c.after w)

lemma insertedLengths_append (a : Address) (calls more : List Call) (w : World σ) :
    insertedLengths a (calls ++ more) w =
      insertedLengths a calls w ++ insertedLengths a more (afterAll calls w) := by
  induction calls generalizing w with
  | nil => rfl
  | cons c rest ih => simp [insertedLengths, ih]

end Inserted

/-! ### What a call does to a descriptor -/

section Catalog

variable {f : Fidelity} {c : Call} {a : Address} {w : World (Catalog f)} {h : Holding}

lemma inserted?_eq_none (hr : ∀ name replacing documents, c.request ≠ .insert name replacing documents) :
    c.inserted? a w = none := by
  unfold Call.inserted?
  split
  · rename_i heq
    exact absurd heq (hr _ _ _)
  · rfl

lemma inserted?_of_frame (ha : c.target? ≠ some a) : c.inserted? a w = none := by
  unfold Call.inserted?
  split
  · rename_i name replacing documents heq
    have hne : c.store.address name ≠ a := by
      rintro rfl
      exact ha (by simp [Call.target?, heq, Request.written?])
    simp [hne]
  · rfl

/-- **A call that does not remove a collection leaves its metric and time, and its dimension unless
the call inserts the first documents.** -/
theorem Call.descriptor_after (hindexed : w.backend.Indexed)
    (hh : Keyed.find? a w.backend.holdings = some h)
    (hkept : c.removes a (c.perform.exec w).1 = false) :
    ∃ h', Keyed.find? a (c.after w).backend.holdings = some h' ∧
      h'.descriptor.metric = h.descriptor.metric ∧
      h'.descriptor.createdAt = h.descriptor.createdAt ∧
      h'.descriptor.dimension = h.descriptor.dimension.or (c.inserted? a w) := by
  by_cases ha : c.target? = some a
  · cases hok : (c.perform.exec w).1 with
    | error e =>
      have hnone : c.inserted? a w = none := by
        unfold Call.inserted?
        split
        · simp [hok, fault?]
        · rfl
      rw [Call.backend_of_error hok, hnone, Option.or_none]
      exact ⟨h, hh, rfl, rfl, rfl⟩
    | ok r =>
      have heffect := Call.effect ha hok
      generalize hk : (c.after w).backend = k at heffect ⊢
      cases heffect with
      | kept hr hh' =>
        rw [inserted?_eq_none (by simp [hr]), Option.or_none]
        exact ⟨h, hh, rfl, rfl, rfl⟩
      | created hr hnew =>
        rcases hnew with hnew | rfl
        · rw [hh] at hnew
          cases hnew
        · simp [Call.removes, hok, ha, hr, fault?] at hkept
      | dropped hr => simp [Call.removes, hok, ha, hr, fault?] at hkept
      | @inserted name _ _ _ _ _ hr hh' hp hw =>
        obtain rfl := Option.some.inj (hh.symm.trans hh')
        refine ⟨_, Catalog.find?_store_self .., hw.metric, hw.createdAt, hw.dimension.trans ?_⟩
        have haddress : c.store.address name = a := by
          simpa [Call.target?, hr, Request.written?] using ha
        simp [Call.inserted?, hr, hok, hp, haddress, fault?, Holdings.settled]
      | updated hr hh' hp hm hw =>
        obtain rfl := Option.some.inj (hh.symm.trans hh')
        refine ⟨_, Catalog.find?_store_self .., hw.metric, hw.createdAt, hw.dimension.trans ?_⟩
        rw [inserted?_eq_none (by simp [hr]), Option.or_none]
        exact settled_of_merged hindexed hh hm
      | deleted hr hh' =>
        obtain rfl := Option.some.inj (hh.symm.trans hh')
        rw [inserted?_eq_none (by simp [hr]), Option.or_none]
        exact ⟨_, Catalog.find?_store_self .., rfl, rfl, rfl⟩
  · rw [inserted?_of_frame ha, Option.or_none, Call.frame ha]
    exact ⟨h, hh, rfl, rfl, rfl⟩

/-- Along a run that does not remove a collection, its metric and time stay, and its dimension is
that it had or else that of the first documents inserted. -/
theorem descriptor_afterAll (during : List Call) :
    ∀ {w : World (Catalog f)} {h : Holding}, w.backend.Indexed →
      Keyed.find? a w.backend.holdings = some h →
      List.Forall₂ (fun c r => c.removes a r = false) during (replies during w) →
      ∀ early, early <+: during → ∃ h',
        Keyed.find? a (afterAll early w).backend.holdings = some h' ∧
        h'.descriptor.metric = h.descriptor.metric ∧
        h'.descriptor.createdAt = h.descriptor.createdAt ∧
        h'.descriptor.dimension = h.descriptor.dimension.or (insertedLengths a early w).head? := by
  induction during with
  | nil =>
    intro w h _ hh _ early hearly
    obtain rfl := List.prefix_nil.mp hearly
    exact ⟨h, hh, rfl, rfl, by simp [insertedLengths]⟩
  | cons c rest ih =>
    intro w h hindexed hh hkept early hearly
    rcases List.prefix_cons_iff.mp hearly with rfl | ⟨early, rfl, hbefore⟩
    · exact ⟨h, hh, rfl, rfl, by simp [insertedLengths]⟩
    · obtain ⟨hc, hrest⟩ := List.forall₂_cons.mp hkept
      obtain ⟨h₁, hh₁, hmetric₁, hcreated₁, hdim₁⟩ := Call.descriptor_after hindexed hh hc
      have hindexed₁ : (c.after w).backend.Indexed :=
        Ensures.after (ensures_indexed c.store c.now) hindexed
      obtain ⟨h₂, hh₂, hmetric₂, hcreated₂, hdim₂⟩ := ih hindexed₁ hh₁ hrest early hbefore
      refine ⟨h₂, hh₂, hmetric₂.trans hmetric₁, hcreated₂.trans hcreated₁, hdim₂.trans ?_⟩
      rw [hdim₁, insertedLengths, Option.or_assoc]
      cases c.inserted? a w <;> rfl

end Catalog

/-! ### The history of a collection -/

section History

variable {σ τ : Type} [Backend σ] [Backend τ] {born : Call} {a : Address} {during : List Call}

/-- A call creates a collection, at an address that has none or in the place of another, and the
calls after it do not remove it. -/
structure Lives (born : Call) (a : Address) (during : List Call) (w : World σ) : Prop where
  creates : ∃ name overwrite reuse, born.request = .create name overwrite reuse ∧
    born.store.address name = a ∧
    (overwrite = true ∨ Backend.collection? a w.backend = .ok none)
  succeeds : fault? (born.perform.exec w).1 = none
  kept : List.Forall₂ (fun c r => c.removes a r = false) during (replies during (born.after w))

/-- At every moment of a run after its creation, a collection has the metric and the time with which
it was created, and the dimension of the first documents that were inserted till then. Once it has a
dimension it keeps it. -/
structure Fixed (born : Call) (a : Address) (during : List Call) (w : World σ) : Prop where
  descriptor : ∀ early, early <+: during →
    ∀ c, Shown a c (afterAll early (born.after w)).backend →
      c.metric = born.store.metric ∧ c.createdAt = born.now ∧
      c.dimension = (insertedLengths a early (born.after w)).head?
  once : ∀ early later, early <+: later → later <+: during →
    ∀ c d, Shown a c (afterAll early (born.after w)).backend →
      Shown a d (afterAll later (born.after w)).backend →
      c.dimension = none ∨ d.dimension = c.dimension

lemma head?_insertedLengths {early later : List Call} (h : early <+: later) (w : World σ) :
    (insertedLengths a early w).head? = none ∨
      (insertedLengths a later w).head? = (insertedLengths a early w).head? := by
  obtain ⟨more, rfl⟩ := h
  rw [insertedLengths_append]
  cases insertedLengths a early w with
  | nil => exact .inl rfl
  | cons n rest => exact .inr rfl

section Transfer

variable {R : σ → τ → Prop} {v : World σ} {w : World τ}

lemma inserted?_eq (hR : Backend.Refinement R) (hvw : World.Related R v w) (c : Call) :
    c.inserted? a v = c.inserted? a w := by
  unfold Call.inserted?
  rw [perform_eq hR hvw, hvw.2]

lemma insertedLengths_eq (hR : Backend.Refinement R) (hvw : World.Related R v w)
    (calls : List Call) : insertedLengths a calls v = insertedLengths a calls w := by
  induction calls generalizing v w with
  | nil => rfl
  | cons c rest ih =>
    rw [insertedLengths, insertedLengths, inserted?_eq hR hvw, ih (after_related hR hvw c)]

lemma Lives.related (hR : Backend.Refinement R) (hvw : World.Related R v w)
    (h : Lives born a during v) : Lives born a during w := by
  obtain ⟨hcreates, hsucceeds, hkept⟩ := h
  rw [hR.collection?_eq hvw.1] at hcreates
  rw [perform_eq hR hvw] at hsucceeds
  rw [replies_eq hR during (after_related hR hvw born)] at hkept
  exact ⟨hcreates, hsucceeds, hkept⟩

end Transfer

lemma Lives.holding {f : Fidelity} {w : World (Catalog f)} (h : Lives born a during w) :
    ∃ name, Keyed.find? a (born.after w).backend.holdings =
      some ⟨.fresh name born.store.metric born.now, []⟩ := by
  obtain ⟨⟨name, overwrite, reuse, hr, rfl, hnew⟩, hsucceeds, -⟩ := h
  cases hok : (born.perform.exec w).1 with
  | error e =>
    rw [hok] at hsucceeds
    cases hsucceeds
  | ok r =>
    have ha : born.target? = some (born.store.address name) := by
      simp [Call.target?, hr, Request.written?]
    have heffect := Call.effect ha hok
    generalize (born.after w).backend = k at heffect ⊢
    cases heffect with
    | kept hr' hh =>
      rw [hr] at hr'
      cases hr'
      rcases hnew with hnew | hnew
      · cases hnew
      · rw [Catalog.find?_of_collection? hnew] at hh
        cases hh
    | created hr' hnew' =>
      refine ⟨name, ?_⟩
      rw [hr] at hr'
      cases hr'
      exact Catalog.find?_found_self ..
    | dropped hr' => simp [hr] at hr'
    | inserted hr' => simp [hr] at hr'
    | updated hr' => simp [hr] at hr'
    | deleted hr' => simp [hr] at hr'

/-- The history of a collection in a backend that refines a catalog. -/
theorem fixed_of_refinement {f : Fidelity} {R : σ → Catalog f → Prop} (hR : Backend.Refinement R)
    {s : σ} (hs : R s (.empty f)) {w : World σ} (hw : Reachable s w) (hl : Lives born a during w) :
    Fixed born a during w ∧
      ∀ early, early <+: during → ∃ k, R (afterAll early (born.after w)).backend k ∧
        ∃ h, Keyed.find? a k.holdings = some h ∧ h.descriptor.createdAt = born.now := by
  obtain ⟨v, hv, hwv⟩ := hw.related hR hs
  have hborn := after_related hR hwv born
  have hlv := hl.related hR hwv
  obtain ⟨name, hfresh⟩ := hlv.holding
  have hrun := descriptor_afterAll during (hv.after born).indexed hfresh hlv.kept
  have hdescriptor : ∀ early, early <+: during →
      ∀ c, Shown a c (afterAll early (born.after w)).backend →
        c.metric = born.store.metric ∧ c.createdAt = born.now ∧
        c.dimension = (insertedLengths a early (born.after w)).head? := by
    intro early hearly c hc
    obtain ⟨h, hh, hmetric, hcreated, hdim⟩ := hrun early hearly
    rw [shown_iff hR (afterAll_related hR hborn early).1] at hc
    obtain ⟨h', hh', hcdim, hcmetric, hccreated⟩ := Catalog.exists_of_shown hc
    obtain rfl := Option.some.inj (hh.symm.trans hh')
    rw [insertedLengths_eq hR hborn]
    exact ⟨hcmetric.trans hmetric, hccreated.trans hcreated, hcdim.trans hdim⟩
  refine ⟨⟨hdescriptor, fun early later hle hlater c d hc hd => ?_⟩, fun early hearly => ?_⟩
  · obtain ⟨-, -, hcdim⟩ := hdescriptor early (hle.trans hlater) c hc
    obtain ⟨-, -, hddim⟩ := hdescriptor later hlater d hd
    rw [hcdim, hddim]
    exact head?_insertedLengths hle _
  · obtain ⟨h, hh, -, hcreated, -⟩ := hrun early hearly
    exact ⟨_, (afterAll_related hR hborn early).1, h, hh, hcreated⟩

end History

lemma exists_shown_exact {a : Address} {k : Catalog .exact} {h : Holding}
    (hh : Keyed.find? a k.holdings = some h) : ∃ c, Shown a c k := by
  refine ⟨{ h.descriptor with count := h.documents.length }, ?_⟩
  show Catalog.collection? a k = _
  unfold Catalog.collection?
  rw [hh]
  rfl

/-- A collection in tables can be looked up if the time of its creation is written with four digits
for the year. -/
lemma exists_shown_textual {a : Address} {k : Catalog .textual} {h : Holding}
    (hh : Keyed.find? a k.holdings = some h) (ht : h.descriptor.createdAt.InEra) :
    ∃ c, Shown a c k := by
  refine ⟨{ h.descriptor with name := a.name, count := h.documents.length }, ?_⟩
  show Catalog.collection? a k = _
  unfold Catalog.collection? Catalog.snapshot Fidelity.collection
  rw [hh]
  simp only [Timestamp.parse?_renderNumeric _ ht]
  rfl

/-- **Wherever calls lead to on memory or on tables, the descriptor of a collection that is created is
fixed until the collection is removed**: its metric and its time do not change, and its dimension
changes once at most, to the length of the first embedding that is inserted.

The collection can be looked up all the while, from tables if it was created in the years 0 to
9999. -/
theorem descriptor_fixed (born : Call) (a : Address) (during : List Call) :
    (∀ w : World Memory, Reachable Memory.empty w → Lives born a during w →
      Fixed born a during w ∧
        ∀ early, early <+: during → ∃ c, Shown a c (afterAll early (born.after w)).backend) ∧
    ∀ w : World Tables, Reachable Tables.empty w → Lives born a during w →
      Fixed born a during w ∧
        (born.now.InEra →
          ∀ early, early <+: during → ∃ c, Shown a c (afterAll early (born.after w)).backend) := by
  constructor
  · intro w hw hl
    obtain ⟨hfixed, hthere⟩ := fixed_of_refinement Memory.refinement Memory.shows_empty hw hl
    refine ⟨hfixed, fun early hearly => ?_⟩
    obtain ⟨k, hk, h, hh, -⟩ := hthere early hearly
    obtain ⟨c, hc⟩ := exists_shown_exact hh
    exact ⟨c, (shown_iff Memory.refinement hk).mpr hc⟩
  · intro w hw hl
    obtain ⟨hfixed, hthere⟩ := fixed_of_refinement Tables.refinement Tables.shows_empty hw hl
    refine ⟨hfixed, fun hera early hearly => ?_⟩
    obtain ⟨k, hk, h, hh, hcreated⟩ := hthere early hearly
    obtain ⟨c, hc⟩ := exists_shown_textual hh (hcreated ▸ hera)
    exact ⟨c, (shown_iff Tables.refinement hk).mpr hc⟩

/-- A store with another metric than those of `offline`, on the same partition. -/
def measuring : Store := { offline .default with metric := .euclidean }

/-- A collection is emptied and filled again, and refuses a batch of another length. -/
def refill : List Call :=
  [⟨measuring, instant 1, .insert "animals" false [⟨"1", "a fox", none, some [.one]⟩]⟩,
    ⟨measuring, instant 2, .delete "animals" ["1"]⟩,
    ⟨offline .default, instant 3, .create "animals" false true⟩,
    ⟨offline .default, instant 4, .insert "animals" true [⟨"1", "a fox", none, some [.one, .one]⟩]⟩,
    ⟨measuring, instant 5, .insert "animals" true [⟨"2", "a wolf", none, some [.zero]⟩]⟩]

/-- After all that the collection has the metric of the first store and the first dimension. -/
theorem descriptor_fixed_refilled :
    (∃ c, Shown ⟨"default", "animals"⟩ c
        (afterAll refill (emptyCollection.after (.opened Memory.empty))).backend ∧
      c.metric = .cosine ∧ c.createdAt = instant 0 ∧ c.dimension = some 1) ∧
    ∃ c, Shown ⟨"default", "animals"⟩ c
        (afterAll refill (emptyCollection.after (.opened Tables.empty))).backend ∧
      c.metric = .cosine ∧ c.createdAt = instant 0 ∧ c.dimension = some 1 := by
  obtain ⟨memory, tables⟩ := descriptor_fixed emptyCollection ⟨"default", "animals"⟩ refill
  constructor
  · obtain ⟨hfixed, hthere⟩ := memory _ .opened
      ⟨⟨"animals", false, false, rfl, rfl, .inr rfl⟩, by decide +kernel, by decide +kernel⟩
    obtain ⟨c, hc⟩ := hthere refill (List.prefix_refl _)
    obtain ⟨hmetric, hcreated, hdim⟩ := hfixed.descriptor refill (List.prefix_refl _) c hc
    exact ⟨c, hc, hmetric, hcreated, hdim.trans (by decide +kernel)⟩
  · obtain ⟨hfixed, hthere⟩ := tables _ .opened
      ⟨⟨"animals", false, false, rfl, rfl, .inr rfl⟩, by decide +kernel, by decide +kernel⟩
    obtain ⟨c, hc⟩ := hthere (by decide) refill (List.prefix_refl _)
    obtain ⟨hmetric, hcreated, hdim⟩ := hfixed.descriptor refill (List.prefix_refl _) c hc
    exact ⟨c, hc, hmetric, hcreated, hdim.trans (by decide +kernel)⟩

end SemanticStore.Store
