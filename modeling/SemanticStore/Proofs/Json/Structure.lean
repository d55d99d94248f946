import SemanticStore.Json.Raw
import SemanticStore.Proofs.Json.Grammar

/-!
# The structure of JSON texts

`Raw.tokens` are the tokens of a structure. The reader takes one token at a time and keeps the
containers that are open on a stack; what it has read so far are `Raw.readTokens`, and a step reads one
token more (`Raw.readTokens_step`). So it ends with a structure just on the tokens of that structure
(`Raw.run?_eq_some_iff`), and the structure of a text is the one that the text spells
(`Raw.ofText?_eq_some_iff`).
-/

namespace SemanticStore.Json.Raw

/-! ### Tokens -/

mutual

/-- The tokens of a structure. -/
def tokens : Raw → List Token
  | null => [.null]
  | bool b => [.bool b]
  | number n => [.number n]
  | string q => [.string q]
  | array items => .arrayOpen :: itemTokens items
  | object members => .objectOpen :: memberTokens members

def itemTokens : List Raw → List Token
  | [] => [.arrayClose]
  | [r] => tokens r ++ [.arrayClose]
  | r :: r' :: rest => tokens r ++ .comma :: itemTokens (r' :: rest)

def memberTokens : List (Quoted × Raw) → List Token
  | [] => [.objectClose]
  | [(k, r)] => .string k :: .colon :: (tokens r ++ [.objectClose])
  | (k, r) :: kr :: rest =>
      .string k :: .colon :: (tokens r ++ .comma :: memberTokens (kr :: rest))

end

/-- The text is one JSON value of this structure, with nothing but white space around it. -/
def Spelled (r : Raw) (text : String) : Prop := Token.Spelled r.tokens text.toList

/-- What holds of a container if it holds of what is in it, and of everything else, holds of all
texts. -/
@[elab_as_elim, induction_eliminator]
theorem induction {motive : Raw → Prop} (null : motive .null) (bool : ∀ b, motive (.bool b))
    (number : ∀ n, motive (.number n)) (string : ∀ q, motive (.string q))
    (array : ∀ items, (∀ r ∈ items, motive r) → motive (.array items))
    (object : ∀ members, (∀ kr ∈ members, motive kr.2) → motive (.object members)) (r : Raw) :
    motive r := by
  refine Raw.rec (motive_1 := motive) (motive_2 := fun items => ∀ r ∈ items, motive r)
    (motive_3 := fun members => ∀ kr ∈ members, motive kr.2) (motive_4 := fun kr => motive kr.2)
    null bool number string array object ?_ ?_ ?_ ?_ ?_ r
  · exact fun r hr => absurd hr List.not_mem_nil
  · exact fun r items hr hitems => List.forall_mem_cons.mpr ⟨hr, hitems⟩
  · exact fun kr hkr => absurd hkr List.not_mem_nil
  · exact fun kr members hkr hmembers => List.forall_mem_cons.mpr ⟨hkr, hmembers⟩
  · exact fun k r hr => hr

variable {stack : List Frame} {rest : List Token} {expect : Expect}

lemma run?_cons (expect : Expect) (stack : List Frame) (t : Token) (rest : List Token) :
    run? expect stack (t :: rest) = (step? expect stack t).bind fun p => run? p.1 p.2 rest := by
  rw [run?.eq_def]
  cases expect with
  | after r =>
    cases stack
    all_goals
      dsimp only
      cases step? _ _ t <;> rfl
  | _ =>
    dsimp only
    cases step? _ _ t <;> rfl

lemma run?_cons_of_step {e x : Expect} {s : List Frame} {t : Token}
    (h : step? e stack t = some (x, s)) : run? e stack (t :: rest) = run? x s rest := by
  rw [run?_cons, h]
  rfl

/-! ### The tokens of a structure are read as it -/

/-- The tokens are read as the structure. -/
def Parsed (r : Raw) : Prop := ∀ (stack : List Frame) (rest : List Token),
  run? .value stack (r.tokens ++ rest) = run? (.after r) stack rest

/-- A value does not start with the end of an array. -/
lemma exists_tokens (r : Raw) : ∃ t ts, r.tokens = t :: ts ∧ t ≠ .arrayClose := by
  cases r <;> simp [tokens]

/-- The first item of an array is read like any other. -/
lemma run?_item {r : Raw} (hr : Parsed r) :
    run? .item (.array [] :: stack) (r.tokens ++ rest) =
      run? (.after r) (.array [] :: stack) rest := by
  rw [← hr]
  obtain ⟨t, ts, hts, hne⟩ := exists_tokens r
  have hstep : step? .item (.array [] :: stack) t = step? .value (.array [] :: stack) t := by
    cases t <;> first | rfl | exact absurd rfl hne
  rw [hts, List.cons_append, run?, run?, hstep]

/-- The rest of an array, after an item. -/
lemma run?_items {r : Raw} {items : List Raw} (hr : Parsed r) (h : ∀ x ∈ items, Parsed x)
    (read : List Raw) :
    run? .value (.array read :: stack) (itemTokens (r :: items) ++ rest) =
      run? (.after (.array (read.reverse ++ r :: items))) stack rest := by
  induction items generalizing r read with
  | nil =>
    rw [itemTokens, List.append_assoc, hr]
    refine (run?_cons_of_step rfl).trans ?_
    rw [List.reverse_cons]
    rfl
  | cons x items ih =>
    obtain ⟨hx, hrest⟩ := List.forall_mem_cons.mp h
    rw [itemTokens, List.append_assoc, hr, List.cons_append,
      run?_cons_of_step (x := .value) (s := .array (r :: read) :: stack) rfl,
      ih hx hrest, List.reverse_cons, List.append_assoc]
    rfl

lemma parsed_array {items : List Raw} (h : ∀ r ∈ items, Parsed r) : Parsed (.array items) := by
  intro stack rest
  refine (run?_cons_of_step (x := .item) (s := .array [] :: stack) rfl).trans ?_
  cases items with
  | nil => exact run?_cons_of_step rfl
  | cons r items =>
    obtain ⟨hr, hitems⟩ := List.forall_mem_cons.mp h
    refine Eq.trans ?_ (run?_items hr hitems [])
    show run? .item (.array [] :: stack) (itemTokens (r :: items) ++ rest) = _
    cases items with
    | nil => rw [itemTokens, List.append_assoc, run?_item hr, hr]
    | cons x items => rw [itemTokens, List.append_assoc, run?_item hr, hr]

/-- The members of an object, from a key on. -/
lemma run?_members {k : Quoted} {r : Raw} {members : List (Quoted × Raw)}
    (read : List (Quoted × Raw))
    (hkey : ∀ q, step? expect stack (.string q) = some (.colon read q, stack)) (hr : Parsed r)
    (h : ∀ kr ∈ members, Parsed kr.2) :
    run? expect stack (memberTokens ((k, r) :: members) ++ rest) =
      run? (.after (.object (read.reverse ++ (k, r) :: members))) stack rest := by
  induction members generalizing k r read expect with
  | nil =>
    rw [memberTokens, List.cons_append, run?_cons_of_step (hkey _), List.cons_append,
      run?_cons_of_step (x := .value) (s := .object read k :: stack) rfl, List.append_assoc, hr]
    refine (run?_cons_of_step rfl).trans ?_
    rw [List.reverse_cons]
    rfl
  | cons kx members ih =>
    obtain ⟨l, x⟩ := kx
    obtain ⟨hx, hrest⟩ := List.forall_mem_cons.mp h
    rw [memberTokens, List.cons_append, run?_cons_of_step (hkey _), List.cons_append,
      run?_cons_of_step (x := .value) (s := .object read k :: stack) rfl, List.append_assoc, hr,
      List.cons_append, run?_cons_of_step (x := .key ((k, r) :: read)) (s := stack) rfl,
      ih ((k, r) :: read) (fun q => rfl) hx hrest, List.reverse_cons, List.append_assoc]
    rfl

lemma parsed_object {members : List (Quoted × Raw)} (h : ∀ kr ∈ members, Parsed kr.2) :
    Parsed (.object members) := by
  intro stack rest
  refine (run?_cons_of_step (x := .firstKey) (s := stack) rfl).trans ?_
  cases members with
  | nil => exact run?_cons_of_step rfl
  | cons kr members =>
    obtain ⟨hr, hmembers⟩ := List.forall_mem_cons.mp h
    exact run?_members [] (fun q => rfl) hr hmembers

/-- **The tokens of a structure are read as it.** -/
theorem run?_tokens (r : Raw) : Parsed r := by
  induction r with
  | array items ih => exact parsed_array ih
  | object members ih => exact parsed_object ih
  | _ => exact fun stack rest => run?_cons_of_step rfl

/-! ### What is read are the tokens of a structure -/

/-- Items with a comma behind each. -/
def itemsRead (items : List Raw) : List Token := items.flatMap fun r => r.tokens ++ [.comma]

/-- Members with a comma behind each. -/
def membersRead (members : List (Quoted × Raw)) : List Token :=
  members.flatMap fun kr => .string kr.1 :: .colon :: (kr.2.tokens ++ [.comma])

/-- The tokens of a container that is open. -/
def Frame.tokens : Frame → List Token
  | .array items => .arrayOpen :: itemsRead items.reverse
  | .object members k => .objectOpen :: (membersRead members.reverse ++ [.string k, .colon])

def stackTokens (stack : List Frame) : List Token := stack.reverse.flatMap Frame.tokens

/-- The tokens that have been read where these are expected. -/
def readTokens : Expect → List Frame → List Token
  | .value, stack => stackTokens stack
  | .item, stack => stackTokens stack
  | .firstKey, stack => stackTokens stack ++ [.objectOpen]
  | .key members, stack => stackTokens stack ++ .objectOpen :: membersRead members.reverse
  | .colon members k, stack =>
      stackTokens stack ++ .objectOpen :: (membersRead members.reverse ++ [.string k])
  | .after r, stack => stackTokens stack ++ r.tokens

lemma itemTokens_append (items : List Raw) (r : Raw) :
    itemTokens (items ++ [r]) = itemsRead items ++ (r.tokens ++ [.arrayClose]) := by
  induction items with
  | nil => rfl
  | cons x items ih =>
    obtain ⟨y, ys, hys⟩ := List.exists_cons_of_ne_nil (l := items ++ [r]) (by simp)
    rw [List.cons_append, hys, itemTokens, ← hys, ih]
    simp [itemsRead]

lemma memberTokens_append (members : List (Quoted × Raw)) (k : Quoted) (r : Raw) :
    memberTokens (members ++ [(k, r)]) =
      membersRead members ++ .string k :: .colon :: (r.tokens ++ [.objectClose]) := by
  induction members with
  | nil => rfl
  | cons kx members ih =>
    obtain ⟨l, x⟩ := kx
    obtain ⟨y, ys, hys⟩ := List.exists_cons_of_ne_nil (l := members ++ [(k, r)]) (by simp)
    rw [List.cons_append, hys, memberTokens, ← hys, ih]
    simp [membersRead]

lemma stackTokens_cons (frame : Frame) (stack : List Frame) :
    stackTokens (frame :: stack) = stackTokens stack ++ frame.tokens := by
  simp [stackTokens]

lemma readTokens_begin {t : Token} {e : Expect} {stack' : List Frame}
    (h : begin? stack t = some (e, stack')) :
    readTokens e stack' = stackTokens stack ++ [t] := by
  unfold begin? at h
  split at h
  · cases h
    simp [readTokens, stackTokens_cons, Frame.tokens, itemsRead]
  · cases h
    rfl
  · obtain ⟨r, hr, heq⟩ := Option.map_eq_some_iff.mp h
    cases heq
    unfold ofToken? at hr
    split at hr <;> cases hr <;> rfl

/-- **A step reads one token.** -/
theorem readTokens_step {t : Token} {e : Expect} {stack' : List Frame}
    (h : step? expect stack t = some (e, stack')) :
    readTokens e stack' = readTokens expect stack ++ [t] := by
  unfold step? at h
  split at h
  · exact readTokens_begin h
  · cases h
    simp [readTokens, stackTokens_cons, Frame.tokens, itemsRead, tokens, itemTokens]
  · exact readTokens_begin h
  · cases h
    simp [readTokens, tokens, memberTokens]
  · cases h
    simp [readTokens, membersRead]
  · cases h
    simp [readTokens]
  · cases h
    simp [readTokens, stackTokens_cons, Frame.tokens]
  · cases h
    simp [readTokens, stackTokens_cons, Frame.tokens, itemsRead]
  · cases h
    simp [readTokens, stackTokens_cons, Frame.tokens, tokens, itemTokens_append]
  · cases h
    simp [readTokens, stackTokens_cons, Frame.tokens, membersRead]
  · cases h
    simp [readTokens, stackTokens_cons, Frame.tokens, tokens, memberTokens_append]
  · cases h

lemma readTokens_of_run? {r : Raw} {ts : List Token} (h : run? expect stack ts = some r) :
    readTokens expect stack ++ ts = r.tokens := by
  induction ts generalizing expect stack with
  | nil =>
    cases expect with
    | after r' =>
      cases stack with
      | nil =>
        cases h
        simp [readTokens, stackTokens]
      | cons frame stack => cases h
    | _ => cases h
  | cons t ts ih =>
    rw [run?_cons] at h
    obtain ⟨⟨e, stack'⟩, hstep, h⟩ := Option.bind_eq_some_iff.mp h
    rw [← ih h, readTokens_step hstep, List.append_assoc]
    rfl

/-- **The tokens that are read to their end are those of a structure.** -/
theorem run?_eq_some_iff {r : Raw} {ts : List Token} :
    run? .value [] ts = some r ↔ ts = r.tokens := by
  constructor
  · exact fun h => readTokens_of_run? h
  · rintro rfl
    have hrun := run?_tokens r [] []
    rw [List.append_nil] at hrun
    exact hrun

/-- **The structure of a text is the one that it spells.** -/
theorem ofText?_eq_some_iff {r : Raw} {text : String} : ofText? text = some r ↔ r.Spelled text := by
  unfold ofText? ofChars? Spelled
  simp [Option.bind_eq_some_iff, run?_eq_some_iff, Token.ofChars?_eq_some_iff]

/-- A text spells one structure only. -/
theorem eq_of_spelled {r r' : Raw} {text : String} (h : r.Spelled text) (h' : r'.Spelled text) :
    r = r' :=
  Option.some.inj ((ofText?_eq_some_iff.mpr h).symm.trans (ofText?_eq_some_iff.mpr h'))

end SemanticStore.Json.Raw
