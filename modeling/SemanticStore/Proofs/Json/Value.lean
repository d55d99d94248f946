import Mathlib.Data.List.Induction
import Mathlib.Data.List.Sort
import Mathlib.Data.String.Basic
import Mathlib.Tactic.Common
import SemanticStore.Json.Value

/-!
# Facts about JSON values

`Json.Canonical` says that the members of every object in a value are sorted by key, so that the
value is the only one with these members, and `Json.Integral` that all its numbers are integers.
`Json.depth` counts how many containers enclose one another. Proofs about all values go by
`Json.induction`, which has one case for each constructor.

`Members.ofList` makes sorted members of any list (`Members.sorted_ofList`) and leaves sorted members
as they are (`Members.ofList_of_sorted`). Of a repeated key it keeps the last value
(`Members.get?_ofList`), and sorted members are determined by the values of their keys
(`Members.eq_of_get?`).
-/

namespace SemanticStore

namespace Members

/-! ### Sorted members -/

/-- Keys ascend, so no key is there twice. -/
def Sorted (m : Members) : Prop := m.Pairwise fun x y => x.1 < y.1

instance (m : Members) : Decidable m.Sorted := by unfold Sorted; infer_instance

variable {m m' : Members} {key : String} {v : Json} {kv : String × Json}

lemma insert_cons (key : String) (v : Json) (kv : String × Json) (m : Members) :
    insert key v (kv :: m) = if key < kv.1 then (key, v) :: kv :: m
      else if key = kv.1 then (key, v) :: m else kv :: insert key v m := rfl

lemma mem_insert (h : kv ∈ insert key v m) : kv = (key, v) ∨ kv ∈ m := by
  induction m with
  | nil => exact .inl (List.mem_singleton.mp h)
  | cons kv' m ih =>
    rw [insert_cons] at h
    split at h
    · exact List.mem_cons.mp h
    · split at h
      · exact (List.mem_cons.mp h).imp id (List.mem_cons_of_mem _)
      · rcases List.mem_cons.mp h with rfl | h
        · exact .inr (List.mem_cons_self ..)
        · exact (ih h).imp id (List.mem_cons_of_mem _)

theorem sorted_insert (h : m.Sorted) : (insert key v m).Sorted := by
  induction m with
  | nil => exact List.pairwise_singleton ..
  | cons kv m ih =>
    obtain ⟨hkv, hm⟩ := List.pairwise_cons.mp h
    rw [insert_cons]
    split
    · rename_i hlt
      refine List.pairwise_cons.mpr ⟨fun x hx => ?_, h⟩
      rcases List.mem_cons.mp hx with rfl | hx
      · exact hlt
      · exact hlt.trans (hkv x hx)
    · rename_i hlt
      split
      · rename_i heq
        exact List.pairwise_cons.mpr ⟨heq ▸ hkv, hm⟩
      · rename_i hne
        refine List.pairwise_cons.mpr ⟨fun x hx => ?_, ih hm⟩
        rcases mem_insert hx with rfl | hx
        · exact lt_of_le_of_ne (not_lt.mp hlt) (Ne.symm hne)
        · exact hkv x hx

lemma insert_of_above (h : ∀ kv ∈ m, kv.1 < key) : insert key v m = m ++ [(key, v)] := by
  induction m with
  | nil => rfl
  | cons kv m ih =>
    have hkv := h kv (List.mem_cons_self ..)
    rw [insert_cons, if_neg (lt_asymm hkv), if_neg (ne_of_gt hkv),
      ih fun x hx => h x (List.mem_cons_of_mem _ hx), List.cons_append]

/-- **Members read one after the other end up sorted.** -/
theorem sorted_ofList (l : List (String × Json)) : (ofList l).Sorted := by
  have hfold : ∀ acc : Members, acc.Sorted →
      (l.foldl (fun m kv => insert kv.1 kv.2 m) acc).Sorted := by
    induction l with
    | nil => exact fun acc h => h
    | cons kv l ih => exact fun acc h => ih _ (sorted_insert h)
  exact hfold [] .nil

lemma mem_ofList {l : List (String × Json)} (h : kv ∈ ofList l) : kv ∈ l := by
  have hfold : ∀ acc : Members, kv ∈ l.foldl (fun m kv => insert kv.1 kv.2 m) acc →
      kv ∈ acc ∨ kv ∈ l := by
    clear h
    induction l with
    | nil => exact fun acc h => .inl h
    | cons x l ih =>
      intro acc h
      rcases ih _ h with h | h
      · rcases mem_insert h with rfl | h
        · exact .inr (List.mem_cons_self ..)
        · exact .inl h
      · exact .inr (List.mem_cons_of_mem _ h)
  rcases hfold [] h with h | h
  · cases h
  · exact h

/-- **Sorted members stay as they are.** -/
theorem ofList_of_sorted (h : m.Sorted) : ofList m = m := by
  -- by induction on what is still to be read, behind what has been read
  have hfold : ∀ acc : Members, Sorted (acc ++ m) →
      m.foldl (fun m kv => insert kv.1 kv.2 m) acc = acc ++ m := by
    clear h
    induction m with
    | nil => exact fun acc _ => (List.append_nil acc).symm
    | cons kv m ih =>
      intro acc h
      have habove : ∀ x ∈ acc, x.1 < kv.1 := fun x hx =>
        (List.pairwise_append.mp h).2.2 x hx kv (List.mem_cons_self ..)
      rw [List.append_cons] at h
      rw [List.foldl_cons, insert_of_above habove, ih _ h, ← List.append_cons]
  exact hfold [] h

/-! ### The value of a key -/

lemma get?_cons (kv : String × Json) (m : Members) (key : String) :
    get? (kv :: m) key = if key = kv.1 then some kv.2 else get? m key := by
  unfold get?
  rw [List.lookup_cons]
  by_cases h : key = kv.1
  · rw [if_pos h, beq_iff_eq.mpr h]
  · rw [if_neg h, beq_false_of_ne h]

lemma get?_insert (key : String) (v : Json) (m : Members) (k : String) :
    (insert key v m).get? k = if k = key then some v else m.get? k := by
  induction m with
  | nil => exact get?_cons (key, v) [] k
  | cons kv m ih =>
    rw [insert_cons]
    split
    · exact get?_cons (key, v) (kv :: m) k
    · split
      · rename_i heq
        rw [get?_cons, get?_cons, ← heq]
        split <;> rfl
      · rename_i hne
        rw [get?_cons, get?_cons, ih]
        by_cases hk : k = key
        · rw [hk, if_neg hne, if_pos rfl, if_pos rfl]
        · rw [if_neg hk, if_neg hk]

/-- **Of a repeated key the last value counts.** -/
theorem get?_ofList (l : List (String × Json)) (key : String) :
    (ofList l).get? key = get? l.reverse key := by
  induction l using List.reverseRecOn with
  | nil => rfl
  | append_singleton l kv ih =>
    have hlast : ofList (l ++ [kv]) = insert kv.1 kv.2 (ofList l) := List.foldl_concat ..
    rw [hlast, get?_insert, ih, List.reverse_concat, get?_cons]

lemma get?_eq_some_iff_mem (h : m.Sorted) : m.get? key = some v ↔ (key, v) ∈ m := by
  induction m with
  | nil => simp [get?]
  | cons kv m ih =>
    obtain ⟨hkv, hm⟩ := List.pairwise_cons.mp h
    rw [get?_cons, List.mem_cons]
    by_cases hkey : key = kv.1
    · subst hkey
      have hnot : (kv.1, v) ∉ m := fun hv => absurd (hkv _ hv) (lt_irrefl _)
      simp [hnot, Prod.ext_iff, eq_comm]
    · simp [hkey, ih hm, Prod.ext_iff]

/-- **Sorted members are known by the values of their keys.** -/
theorem eq_of_get? (h : m.Sorted) (h' : m'.Sorted) (hget : ∀ key, m.get? key = m'.get? key) :
    m = m' := by
  have : Std.Irrefl fun x y : String × Json => x.1 < y.1 := ⟨fun x => lt_irrefl x.1⟩
  have : Std.Antisymm fun x y : String × Json => x.1 < y.1 :=
    ⟨fun x y hxy hyx => absurd hxy (lt_asymm hyx)⟩
  refine List.Pairwise.eq_of_mem_iff h h' fun kv => ?_
  rw [← get?_eq_some_iff_mem h, hget, get?_eq_some_iff_mem h']
end Members

namespace Json

/-! ### Induction -/

/-- What holds of a container if it holds of what is in it, and of everything else, holds of all
values. -/
@[elab_as_elim, induction_eliminator]
theorem induction {motive : Json → Prop} (null : motive .null) (bool : ∀ b, motive (.bool b))
    (number : ∀ n, motive (.number n)) (string : ∀ s, motive (.string s))
    (array : ∀ items, (∀ v ∈ items, motive v) → motive (.array items))
    (object : ∀ members, (∀ kv ∈ members, motive kv.2) → motive (.object members)) (v : Json) :
    motive v := by
  refine Json.rec (motive_1 := motive) (motive_2 := fun items => ∀ v ∈ items, motive v)
    (motive_3 := fun members => ∀ kv ∈ members, motive kv.2) (motive_4 := fun kv => motive kv.2)
    null bool number string array object ?_ ?_ ?_ ?_ ?_ v
  · exact fun v hv => absurd hv List.not_mem_nil
  · exact fun v items hv hitems => List.forall_mem_cons.mpr ⟨hv, hitems⟩
  · exact fun kv hkv => absurd hkv List.not_mem_nil
  · exact fun kv members hkv hmembers => List.forall_mem_cons.mpr ⟨hkv, hmembers⟩
  · exact fun k v hv => hv

/-! ### Depth -/

mutual

/-- How many containers enclose one another. -/
def depth : Json → ℕ
  | array items => itemsDepth items + 1
  | object members => membersDepth members + 1
  | _ => 0

def itemsDepth : List Json → ℕ
  | [] => 0
  | v :: rest => max (depth v) (itemsDepth rest)

def membersDepth : List (String × Json) → ℕ
  | [] => 0
  | (_, v) :: rest => max (depth v) (membersDepth rest)

end

variable {d : ℕ} {items : List Json} {members : List (String × Json)}

lemma itemsDepth_le : itemsDepth items ≤ d ↔ ∀ v ∈ items, v.depth ≤ d := by
  induction items with
  | nil => simp [itemsDepth]
  | cons v items ih => simp [itemsDepth, ih]

lemma membersDepth_le : membersDepth members ≤ d ↔ ∀ kv ∈ members, kv.2.depth ≤ d := by
  induction members with
  | nil => simp [membersDepth]
  | cons kv members ih => simp [membersDepth, ih]

lemma depth_array_le : (array items).depth ≤ d + 1 ↔ ∀ v ∈ items, v.depth ≤ d := by
  rw [depth, Nat.add_le_add_iff_right, itemsDepth_le]

lemma depth_object_le : (object members).depth ≤ d + 1 ↔ ∀ kv ∈ members, kv.2.depth ≤ d := by
  rw [depth, Nat.add_le_add_iff_right, membersDepth_le]

/-! ### Kinds of values -/

/-- The members of every object are sorted by key. -/
inductive Canonical : Json → Prop
  | null : Canonical null
  | bool (b : Bool) : Canonical (bool b)
  | number (n : JsonNumber) : Canonical (number n)
  | string (s : String) : Canonical (string s)
  | array {items : List Json} (h : ∀ v ∈ items, Canonical v) : Canonical (array items)
  | object {members : Members} (sorted : members.Sorted) (h : ∀ kv ∈ members, Canonical kv.2) :
      Canonical (object members)

/-- All numbers are integers. -/
inductive Integral : Json → Prop
  | null : Integral null
  | bool (b : Bool) : Integral (bool b)
  | integer (n : WordInt) : Integral (number (.integer n))
  | string (s : String) : Integral (string s)
  | array {items : List Json} (h : ∀ v ∈ items, Integral v) : Integral (array items)
  | object {members : Members} (h : ∀ kv ∈ members, Integral kv.2) : Integral (object members)

end Json

end SemanticStore
