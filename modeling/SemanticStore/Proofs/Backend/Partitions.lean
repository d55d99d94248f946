import SemanticStore.Proofs.Backend.Catalog
import SemanticStore.Proofs.Backend.Simulation

/-!
# The partitions of a catalog

* `Catalog.part`: the collections of one partition. An operation in the partition does to the part
  what it does to the catalog (`Catalog.part_simulation`), and a write in another partition leaves
  the part as it is (`Catalog.part_*`).
-/

namespace SemanticStore.Catalog

variable {f : Fidelity} {p : String} {k : Catalog f} {a : Address} {h : Holding} {c : Collection}

/-- The collections of one partition. -/
def part (p : String) (k : Catalog f) : Catalog f :=
  ⟨k.holdings.filter fun ah => ah.1.partition = p⟩

/-! ### Operations in the partition -/

theorem find?_part (ha : a.partition = p) :
    Keyed.find? a (part p k).holdings = Keyed.find? a k.holdings :=
  Keyed.find?_filter (fun b : Address => b.partition = p) (decide_eq_true ha)

theorem contains_part (ha : a.partition = p) :
    Keyed.contains a (part p k).holdings = Keyed.contains a k.holdings := by
  unfold Keyed.contains
  rw [find?_part ha]

theorem holding_part (ha : a.partition = p) : holding a (part p k) = holding a k := by
  unfold holding
  rw [find?_part ha]

theorem part_store (ha : a.partition = p) : part p (k.store a h) = (part p k).store a h :=
  congrArg mk (Keyed.filter_put (fun b : Address => b.partition = p) (decide_eq_true ha))

theorem part_erase :
    part (f := f) p ⟨Keyed.erase a k.holdings⟩ = ⟨Keyed.erase a (part p k).holdings⟩ :=
  congrArg mk (Keyed.filter_erase fun b : Address => b.partition = p)

theorem part_append (ha : a.partition = p) :
    part (f := f) p ⟨k.holdings ++ [(a, h)]⟩ = ⟨(part p k).holdings ++ [(a, h)]⟩ := by
  unfold part
  rw [List.filter_append, List.filter_cons, if_pos (decide_eq_true ha), List.filter_nil]

lemma agree_part (ha : a.partition = p) (g : Holding → Holding) :
    Agree (fun k k' => part p k = k') ((holding a k).map fun h => k.store a (g h))
      ((holding a (part p k)).map fun h => (part p k).store a (g h)) := by
  rw [holding_part ha]
  cases holding a k with
  | error e => exact .error e
  | ok h => exact .ok (part_store ha)

/-- **An operation in a partition does to the part what it does to the catalog.** -/
theorem part_simulation (p : String) :
    Backend.Simulation (fun q => q = p) Eq fun k k' : Catalog f => part p k = k' where
  hasCollection := by
    rintro k _ a rfl ha
    exact congrArg Except.ok (contains_part ha).symm
  collection? := by
    rintro k _ a rfl ha
    refine .option_rel_of_eq (Collection.Alike.refl fun _ => rfl) ?_
    show Catalog.collection? a k = Catalog.collection? a (part p k)
    unfold Catalog.collection?
    rw [find?_part ha]
  create := by
    rintro k _ a c d rfl ha hcd
    obtain rfl := hcd.eq
    show Agree _ (Catalog.create a c k) (Catalog.create a c (part p k))
    unfold Catalog.create
    rw [contains_part ha]
    split
    · exact .error _
    · exact .ok (part_append ha)
  redescribe := by
    rintro k _ a c d rfl ha hcd
    obtain rfl := hcd.eq
    exact agree_part ha fun h => { h with descriptor := c }
  drop := by
    rintro k _ a rfl ha
    exact .ok ⟨(contains_part ha).symm, part_erase⟩
  collections := by
    rintro k _ q rfl rfl
    refine .forall₂_of_eq (Collection.Alike.refl fun _ => rfl) ?_
    show (k.holdings.filter _).mapM _ = ((k.holdings.filter _).filter _).mapM _
    rw [List.filter_filter]
    simp only [Bool.and_self]
  hasDocument := by
    rintro k _ a id rfl ha
    exact congrArg (Except.map _) (holding_part ha).symm
  document? := by
    rintro k _ a id rfl ha
    exact congrArg (· >>= read? id) (holding_part ha).symm
  put := by
    rintro k _ a d rfl ha
    exact agree_part ha fun h => { h with documents := Documents.put d h.documents }
  remove := by
    rintro k _ a id rfl ha
    show Agree _ ((holding a k).map _) ((holding a (part p k)).map _)
    rw [holding_part ha]
    cases holding a k with
    | error e => exact .error e
    | ok h => exact .ok ⟨rfl, part_store ha⟩
  documents := by
    rintro k _ a rfl ha
    exact congrArg (· >>= fun h => h.documents.mapM f.document) (holding_part ha).symm
  count := by
    rintro k _ a rfl ha
    exact congrArg (Except.map _) (holding_part ha).symm

/-! ### Operations in other partitions -/

theorem part_store_of_ne (ha : a.partition ≠ p) : part p (k.store a h) = part p k :=
  congrArg mk (Keyed.filter_put_of_not (fun b : Address => b.partition = p) (decide_eq_false ha))

theorem part_erase_of_ne (ha : a.partition ≠ p) :
    part (f := f) p ⟨Keyed.erase a k.holdings⟩ = part p k :=
  congrArg mk (Keyed.filter_erase_of_not (fun b : Address => b.partition = p) (decide_eq_false ha))

theorem part_append_of_ne (ha : a.partition ≠ p) :
    part (f := f) p ⟨k.holdings ++ [(a, h)]⟩ = part p k := by
  unfold part
  rw [List.filter_append, List.filter_cons, if_neg (by simpa using ha), List.filter_nil,
    List.append_nil]

end SemanticStore.Catalog
