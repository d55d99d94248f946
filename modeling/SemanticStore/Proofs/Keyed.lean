import Mathlib.Data.List.Forall2
import Mathlib.Data.List.Nodup
import Mathlib.Tactic.Common
import SemanticStore.Keyed

/-!
# Facts about keyed lists

How `put` and `erase` act on look-ups, on the list of keys, on the part of a list that a test on keys
selects, and on the values seen through a function. The last sections are about lists that match key
by key, lists with the same pairs, and lists whose keys ascend.
-/

namespace SemanticStore.Keyed

variable {κ α β : Type} [DecidableEq κ] {k k' : κ} {v w : α} {l : List (κ × α)}

/-! ### Look-ups -/

@[simp] lemma find?_nil : find? k ([] : List (κ × α)) = none := rfl

lemma find?_cons (kv : κ × α) (l : List (κ × α)) :
    find? k (kv :: l) = if kv.1 = k then some kv.2 else find? k l := rfl

lemma put_cons (kv : κ × α) (l : List (κ × α)) :
    put k v (kv :: l) = if kv.1 = k then (k, v) :: l else kv :: put k v l := rfl

lemma contains_eq_false : contains k l = false ↔ find? k l = none := by
  unfold contains
  rw [Option.isSome_eq_false_iff, Option.isNone_iff_eq_none]

theorem mem_of_find? (h : find? k l = some v) : (k, v) ∈ l := by
  induction l with
  | nil => simp at h
  | cons kv l ih =>
    rw [find?_cons] at h
    split at h
    · rename_i hk
      obtain rfl := Option.some.inj h
      subst hk
      exact List.mem_cons_self ..
    · exact List.mem_cons_of_mem _ (ih h)

theorem find?_of_mem (hl : (l.map (·.1)).Nodup) (h : (k, v) ∈ l) : find? k l = some v := by
  induction l with
  | nil => simp at h
  | cons kv l ih =>
    rw [List.map_cons, List.nodup_cons] at hl
    rw [find?_cons]
    rcases List.mem_cons.mp h with rfl | h
    · simp
    · have hne : kv.1 ≠ k := by
        rintro rfl
        exact hl.1 (List.mem_map_of_mem (f := (·.1)) h)
      rw [if_neg hne]
      exact ih hl.2 h

theorem find?_eq_none_iff : find? k l = none ↔ k ∉ l.map (·.1) := by
  induction l with
  | nil => simp
  | cons kv l ih =>
    rw [find?_cons, List.map_cons, List.mem_cons, not_or]
    by_cases h : kv.1 = k
    · simp [h]
    · simp [h, ih, Ne.symm h]

theorem find?_append (l' : List (κ × α)) : find? k (l ++ l') = (find? k l).or (find? k l') := by
  induction l with
  | nil => rfl
  | cons kv l ih =>
    rw [List.cons_append, find?_cons, find?_cons, ih]
    split <;> rfl

/-! ### Writing to a key -/

@[simp] theorem find?_put_self : find? k (put k v l) = some v := by
  induction l with
  | nil => simp [put, find?]
  | cons kv l ih =>
    rw [put_cons]
    split
    · simp [find?]
    · rename_i h
      rw [find?_cons, if_neg h, ih]

theorem find?_put_of_ne (h : k' ≠ k) : find? k' (put k v l) = find? k' l := by
  induction l with
  | nil => simp [put, find?, h.symm]
  | cons kv l ih =>
    rw [put_cons]
    split
    · rename_i hk
      simp [find?_cons, hk, h.symm]
    · rw [find?_cons, find?_cons, ih]

theorem put_put : put k w (put k v l) = put k w l := by
  induction l with
  | nil => simp [put]
  | cons kv l ih =>
    by_cases hk : kv.1 = k
    · simp [put_cons, hk]
    · simp [put_cons, hk, ih]

theorem put_of_find? (h : find? k l = some v) : put k v l = l := by
  induction l with
  | nil => simp at h
  | cons kv l ih =>
    rw [find?_cons] at h
    rw [put_cons]
    split at h
    · rename_i hk
      rw [if_pos hk]
      cases h
      rw [← hk]
    · rename_i hk
      rw [if_neg hk, ih h]

theorem put_of_find?_eq_none (h : find? k l = none) : put k v l = l ++ [(k, v)] := by
  induction l with
  | nil => rfl
  | cons kv l ih =>
    rw [find?_cons] at h
    split at h
    · cases h
    · rename_i hk
      rw [put_cons, if_neg hk, ih h, List.cons_append]

theorem keys_put (h : find? k l = some w) : (put k v l).map (·.1) = l.map (·.1) := by
  induction l with
  | nil => simp at h
  | cons kv l ih =>
    rw [find?_cons] at h
    rw [put_cons]
    split at h
    · rename_i hk
      simp [hk]
    · rename_i hk
      rw [if_neg hk, List.map_cons, List.map_cons, ih h]

theorem put_eq_map (hl : (l.map (·.1)).Nodup) (h : find? k l = some w) :
    put k v l = l.map fun kv => if kv.1 = k then (k, v) else kv := by
  induction l with
  | nil => simp at h
  | cons kv l ih =>
    rw [List.map_cons, List.nodup_cons] at hl
    rw [find?_cons] at h
    rw [put_cons, List.map_cons]
    split at h
    · rename_i hk
      -- the key stands here, so nowhere behind
      have hrest : ∀ x ∈ l, (if x.1 = k then (k, v) else x) = x := by
        intro x hx
        rw [if_neg]
        intro hxk
        exact hl.1 (hk ▸ hxk ▸ List.mem_map_of_mem (f := (·.1)) hx)
      rw [if_pos hk, if_pos hk, List.map_congr_left hrest, List.map_id']
    · rename_i hk
      rw [if_neg hk, if_neg hk, ih hl.2 h]

theorem mem_put {kv : κ × α} (h : kv ∈ put k v l) : kv = (k, v) ∨ kv ∈ l := by
  induction l with
  | nil => exact .inl (by simpa [put] using h)
  | cons kv' l ih =>
    rw [put_cons] at h
    split at h
    · rcases List.mem_cons.mp h with h | h
      · exact .inl h
      · exact .inr (List.mem_cons_of_mem _ h)
    · rcases List.mem_cons.mp h with h | h
      · exact .inr (h ▸ List.mem_cons_self ..)
      · exact (ih h).imp id (List.mem_cons_of_mem _)

theorem mem_put_iff (hl : (l.map (·.1)).Nodup) {kv : κ × α} :
    kv ∈ put k v l ↔ kv = (k, v) ∨ kv.1 ≠ k ∧ kv ∈ l := by
  induction l with
  | nil => simp [put]
  | cons kv' l ih =>
    rw [List.map_cons, List.nodup_cons] at hl
    rw [put_cons]
    split
    · rename_i hk
      have hkv : ∀ p ∈ l, p.1 ≠ k := by
        rintro p hp rfl
        exact hl.1 (hk ▸ List.mem_map_of_mem (f := (·.1)) hp)
      rw [List.mem_cons, List.mem_cons]
      refine or_congr_right ⟨fun h => ⟨hkv kv h, .inr h⟩, ?_⟩
      rintro ⟨hne, rfl | h⟩
      · exact absurd hk hne
      · exact h
    · rename_i hk
      rw [List.mem_cons, List.mem_cons, ih hl.2]
      constructor
      · rintro (rfl | h | ⟨hne, h⟩)
        · exact .inr ⟨hk, .inl rfl⟩
        · exact .inl h
        · exact .inr ⟨hne, .inr h⟩
      · rintro (h | ⟨hne, rfl | h⟩)
        · exact .inr (.inl h)
        · exact .inl rfl
        · exact .inr (.inr ⟨hne, h⟩)

/-- Lists that match pair by pair match after a value is replaced by one that matches as well. -/
theorem forall₂_put {R : β → κ × α → Prop} {l' : List β} (hl : List.Forall₂ R l' l)
    (h : find? k l = some w) (hvw : ∀ b, R b (k, w) → R b (k, v)) :
    List.Forall₂ R l' (put k v l) := by
  induction hl with
  | nil => simp at h
  | @cons b kv l' l hb hl ih =>
    rw [find?_cons] at h
    rw [put_cons]
    split at h
    · rename_i hk
      obtain rfl := Option.some.inj h
      subst hk
      rw [if_pos rfl]
      exact .cons (hvw b hb) hl
    · rename_i hk
      rw [if_neg hk]
      exact .cons hb (ih h)

theorem nodup_put (hl : (l.map (·.1)).Nodup) : ((put k v l).map (·.1)).Nodup := by
  cases h : find? k l with
  | some w => rwa [keys_put h]
  | none =>
    rw [put_of_find?_eq_none h, List.map_append, List.nodup_append]
    refine ⟨hl, by simp, ?_⟩
    rintro a ha b hb rfl
    obtain rfl : a = k := by simpa using hb
    exact find?_eq_none_iff.mp h ha

/-! ### Taking a key out -/

@[simp] theorem find?_erase_self : find? k (erase k l) = none := by
  rw [find?_eq_none_iff]
  simp [erase]

theorem erase_of_find?_eq_none (h : find? k l = none) : erase k l = l := by
  rw [find?_eq_none_iff] at h
  refine List.filter_eq_self.mpr fun kv hkv => ?_
  have hne : kv.1 ≠ k := by
    rintro rfl
    exact h (List.mem_map_of_mem hkv)
  simp [hne]

theorem find?_erase_of_ne (h : k' ≠ k) : find? k' (erase k l) = find? k' l := by
  induction l with
  | nil => rfl
  | cons kv l ih =>
    unfold erase at ih ⊢
    rw [List.filter_cons]
    split
    · rw [find?_cons, find?_cons, ih]
    · rename_i hk
      have hk : kv.1 = k := by simpa using hk
      rw [ih, find?_cons, if_neg (hk ▸ Ne.symm h)]

lemma mem_erase {kv : κ × α} : kv ∈ erase k l ↔ kv ∈ l ∧ kv.1 ≠ k := by
  simp [erase]

lemma nodup_erase (hl : (l.map (·.1)).Nodup) : ((erase k l).map (·.1)).Nodup :=
  hl.sublist (List.filter_sublist.map _)

/-! ### Values seen through a function -/

section Map

variable (f : α → β)

theorem find?_map : find? k (l.map fun kv => (kv.1, f kv.2)) = (find? k l).map f := by
  induction l with
  | nil => rfl
  | cons kv l ih =>
    rw [List.map_cons, find?_cons, find?_cons, ih]
    split <;> rfl

lemma contains_map : contains k (l.map fun kv => (kv.1, f kv.2)) = contains k l := by
  unfold contains
  rw [find?_map, Option.isSome_map]

theorem put_map : put k (f v) (l.map fun kv => (kv.1, f kv.2)) =
    (put k v l).map fun kv => (kv.1, f kv.2) := by
  induction l with
  | nil => rfl
  | cons kv l ih =>
    rw [List.map_cons, put_cons, put_cons]
    split
    · rfl
    · rw [ih, List.map_cons]

theorem erase_map : erase k (l.map fun kv => (kv.1, f kv.2)) =
    (erase k l).map fun kv => (kv.1, f kv.2) := by
  simp only [erase, List.filter_map]
  rfl

end Map

/-! ### The part that a test on keys selects -/

section Part

variable (p : κ → Bool)

theorem find?_filter (h : p k = true) : find? k (l.filter fun kv => p kv.1) = find? k l := by
  induction l with
  | nil => rfl
  | cons kv l ih =>
    rw [List.filter_cons]
    split
    · rw [find?_cons, find?_cons, ih]
    · rename_i hk
      have hne : kv.1 ≠ k := by
        rintro rfl
        exact hk h
      rw [ih, find?_cons, if_neg hne]

theorem filter_put (h : p k = true) : (put k v l).filter (fun kv => p kv.1) =
    put k v (l.filter fun kv => p kv.1) := by
  induction l with
  | nil => simp [put, h]
  | cons kv l ih =>
    rw [put_cons]
    by_cases hk : kv.1 = k
    · have hp : p kv.1 = true := hk ▸ h
      simp only [if_pos hk, List.filter_cons, h, hp, if_true, put_cons]
    · rw [if_neg hk, List.filter_cons, List.filter_cons]
      split
      · rw [put_cons, if_neg hk, ih]
      · exact ih

theorem filter_put_of_not (h : p k = false) : (put k v l).filter (fun kv => p kv.1) =
    l.filter fun kv => p kv.1 := by
  induction l with
  | nil => simp [put, h]
  | cons kv l ih =>
    rw [put_cons]
    by_cases hk : kv.1 = k
    · have hp : p kv.1 = false := hk ▸ h
      simp [hk, h]
    · rw [if_neg hk, List.filter_cons, List.filter_cons, ih]

theorem filter_erase : (erase k l).filter (fun kv => p kv.1) =
    erase k (l.filter fun kv => p kv.1) := by
  unfold erase
  rw [List.filter_filter, List.filter_filter]
  refine List.filter_congr fun kv _ => ?_
  rw [Bool.and_comm]

theorem filter_erase_of_not (h : p k = false) : (erase k l).filter (fun kv => p kv.1) =
    l.filter fun kv => p kv.1 := by
  unfold erase
  rw [List.filter_filter]
  refine List.filter_congr fun kv _ => ?_
  by_cases hk : kv.1 = k
  · simp [hk, h]
  · simp [hk]

end Part

/-! ### Lists that match key by key -/

/-- The lists have the same keys in the same order, and values related by `Q`. -/
abbrev Match (Q : α → β → Prop) : List (κ × α) → List (κ × β) → Prop :=
  List.Forall₂ fun x y => x.1 = y.1 ∧ Q x.2 y.2

section Match

variable {Q : α → β → Prop} {m : List (κ × β)} {v' : β}

theorem find?_match (h : Match Q l m) : Option.Rel Q (find? k l) (find? k m) := by
  induction h with
  | nil => exact .none
  | @cons x y l m hxy _ ih =>
    obtain ⟨hkey, hval⟩ := hxy
    rw [find?_cons, find?_cons, hkey]
    split
    · exact .some hval
    · exact ih

theorem contains_match (h : Match Q l m) : contains k l = contains k m := by
  have hfind := find?_match (k := k) h
  unfold contains
  generalize find? k l = o at hfind ⊢
  generalize find? k m = o' at hfind ⊢
  cases hfind <;> rfl

theorem put_match (h : Match Q l m) (hv : Q v v') : Match Q (put k v l) (put k v' m) := by
  induction h with
  | nil => exact .cons ⟨rfl, hv⟩ .nil
  | @cons x y l m hxy hlm ih =>
    rw [put_cons, put_cons, hxy.1]
    split
    · exact .cons ⟨rfl, hv⟩ hlm
    · exact .cons hxy ih

theorem erase_match (h : Match Q l m) : Match Q (erase k l) (erase k m) :=
  List.rel_filter (fun x y hxy => by simp only [hxy.1]) h

end Match

/-! ### Lists with the same pairs -/

section Perm

variable {m : List (κ × α)}

theorem find?_perm (hl : (l.map (·.1)).Nodup) (h : l.Perm m) : find? k l = find? k m := by
  cases hf : find? k m with
  | none =>
    rw [find?_eq_none_iff] at hf ⊢
    exact fun hk => hf ((h.map _).subset hk)
  | some v => exact find?_of_mem hl (h.mem_iff.mpr (mem_of_find? hf))

theorem put_perm (hl : (l.map (·.1)).Nodup) (h : l.Perm m) : (put k v l).Perm (put k v m) := by
  have hm : (m.map (·.1)).Nodup := (h.map _).nodup_iff.mp hl
  cases hf : find? k l with
  | none =>
    rw [put_of_find?_eq_none hf, put_of_find?_eq_none (find?_perm hl h ▸ hf)]
    exact h.append_right _
  | some w =>
    rw [put_eq_map hl hf, put_eq_map hm (find?_perm hl h ▸ hf)]
    exact h.map _

end Perm

/-! ### Ascending keys -/

theorem putAscending_of_above {n : ℕ} {l : List (ℕ × α)} (h : ∀ p ∈ l, p.1 < n) :
    putAscending n v l = l ++ [(n, v)] := by
  induction l with
  | nil => rfl
  | cons p l ih =>
    have hp := h p (List.mem_cons_self ..)
    rw [putAscending, if_neg (by omega), if_neg (by omega),
      ih fun q hq => h q (List.mem_cons_of_mem _ hq), List.cons_append]

end SemanticStore.Keyed
