import SemanticStore.Proofs.Decimal.Canonical
import SemanticStore.Proofs.Settings.Store

/-!
# Partitions by their addresses and by their texts

Backends know a partition by its label alone, so an integer and the text that writes it are one
partition to them (`Partition.label_eq_iff`), and no other partitions meet. The JSON text of a
partition keeps all of them apart (`Partition.shared_address_iff`).
-/

namespace SemanticStore.Partition

/-- The partitions are an integer and its decimal text. -/
def Written (p q : Partition) : Prop :=
  ∃ n s, p = int n ∧ q = text s ∧ Decimal.Writes n.val s.toList

lemma label_int_eq_iff {n : SignedInt} {s : String} :
    (int n).label = s ↔ Decimal.Writes n.val s.toList := by
  rw [← Decimal.intChars_eq_iff, ← String.toList_inj]
  show (String.ofList _).toList = _ ↔ _
  rw [String.toList_ofList]

lemma Written.label_eq {p q : Partition} (h : Written p q) : p.label = q.label := by
  obtain ⟨n, s, rfl, rfl, hw⟩ := h
  exact label_int_eq_iff.mpr hw

/-- **Labels meet just where an integer meets its own decimal text.** -/
theorem label_eq_iff (p q : Partition) :
    p.label = q.label ↔ p = q ∨ Written p q ∨ Written q p := by
  constructor
  · intro h
    cases p with
    | int m =>
      cases q with
      | int n =>
        have hval : m.val = n.val := Decimal.intChars_injective (String.ofList_injective h)
        cases m
        cases n
        cases hval
        exact .inl rfl
      | text s => exact .inr (.inl ⟨m, s, rfl, rfl, label_int_eq_iff.mp h⟩)
    | text s =>
      cases q with
      | int n => exact .inr (.inr ⟨n, s, rfl, rfl, label_int_eq_iff.mp h.symm⟩)
      | text t => exact .inl (congrArg text h)
  · rintro (rfl | h | h)
    · rfl
    · exact h.label_eq
    · exact h.label_eq.symm

lemma integral_toJson (p : Partition) : p.toJson.Integral := by
  cases p with
  | int n => exact .integer _
  | text s => exact .string _

/-- **Two partitions share an address just if they are equal, or one is an integer and the other the
canonical decimal text of it**, under the same name of a collection. The JSON text of a partition is
read as this partition. -/
theorem shared_address_iff (p q : Partition) (a b : String) :
    (Address.of p a = Address.of q b ↔ a = b ∧ (p = q ∨ Written p q ∨ Written q p)) ∧
    (Json.Raw.ofText? p.toJson.write).bind decode? = some p := by
  constructor
  · rw [← label_eq_iff, and_comm]
    show Address.mk p.label a = Address.mk q.label b ↔ _
    rw [Address.mk.injEq]
  · rw [Json.Raw.ofText?_write (integral_toJson p), Option.bind_some, decode?_toJson]

end SemanticStore.Partition
