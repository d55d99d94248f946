import Mathlib.Data.List.Forall2
import Mathlib.Tactic.Common
import SemanticStore.Action

/-!
# Reasoning about actions

How actions run, step by step, and two ways of speaking about whole actions:

* `Action.Spec P x Q E`: from a state with `P`, the action `x` ends with a result and a state in `Q`,
  or fails with a fault and a state in `E`;
* `Action.Sim R Q x y`: from states related by `R`, the actions `x` and `y` both end with results
  related by `Q`, or both fail with one fault, and the states after them are related by `R` again.

Both are closed under the ways in which actions are put together, so a fact about an operation
follows the text of the operation.
-/

namespace SemanticStore

/-- Two outcomes that are both results, related by `Q`, or both the same fault. -/
inductive Agree {α β : Type} (Q : α → β → Prop) : Except Fault α → Except Fault β → Prop
  | ok {a : α} {b : β} (h : Q a b) : Agree Q (.ok a) (.ok b)
  | error (e : Fault) : Agree Q (.error e) (.error e)

/-- The fault an outcome is, if it is one. -/
def fault? {α : Type} : Except Fault α → Option Fault
  | .error e => some e
  | .ok _ => none

lemma eq_error_of_fault? {α : Type} {x : Except Fault α} {e : Fault} (h : fault? x = some e) :
    x = .error e := by
  cases x with
  | ok a => cases h
  | error e' => rw [Option.some.inj h]

lemma exists_of_map_eq_ok {α β : Type} {f : α → β} {x : Except Fault α} {b : β}
    (h : x.map f = .ok b) : ∃ a, x = .ok a ∧ f a = b := by
  cases x with
  | ok a => exact ⟨a, rfl, Except.ok.inj h⟩
  | error e => cases h

lemma bind_eq_ok_iff {α β : Type} {x : Except Fault α} {f : α → Except Fault β} {b : β} :
    (x >>= f) = .ok b ↔ ∃ a, x = .ok a ∧ f a = .ok b := by
  cases x with
  | error e => simp [bind, Except.bind]
  | ok a => simp [bind, Except.bind]

lemma bind_eq_error_iff {α β : Type} {x : Except Fault α} {f : α → Except Fault β} {e : Fault} :
    (x >>= f) = .error e ↔ x = .error e ∨ ∃ a, x = .ok a ∧ f a = .error e := by
  cases x with
  | error e' => simp [bind, Except.bind]
  | ok a => simp [bind, Except.bind]

lemma map_eq_error_iff {α β : Type} {x : Except Fault α} {f : α → β} {e : Fault} :
    x.map f = .error e ↔ x = .error e := by
  cases x <;> simp [Except.map]

lemma exists_eq_ok_iff {α : Type} {x : Except Fault α} :
    (∃ a, x = .ok a) ↔ ∀ e, ¬ x = .error e := by
  cases x <;> simp

namespace Agree

variable {α β γ δ : Type} {Q : α → β → Prop} {x : Except Fault α} {y : Except Fault β}

theorem mono {Q' : α → β → Prop} (h : Agree Q x y) (hQ : ∀ a b, Q a b → Q' a b) : Agree Q' x y := by
  cases h with
  | ok h => exact .ok (hQ _ _ h)
  | error e => exact .error e

theorem map {f : α → γ} {g : β → δ} {Q' : γ → δ → Prop} (h : Agree Q x y)
    (hfg : ∀ a b, Q a b → Q' (f a) (g b)) : Agree Q' (x.map f) (y.map g) := by
  cases h with
  | ok h => exact .ok (hfg _ _ h)
  | error e => exact .error e

theorem bind {f : α → Except Fault γ} {g : β → Except Fault δ} {Q' : γ → δ → Prop}
    (h : Agree Q x y) (hfg : ∀ a b, Q a b → Agree Q' (f a) (g b)) : Agree Q' (x >>= f) (y >>= g) := by
  cases h with
  | ok h => exact hfg _ _ h
  | error e => exact .error e

theorem eq_iff {x y : Except Fault α} : Agree Eq x y ↔ x = y := by
  constructor
  · rintro (h | e)
    · rw [h]
    · rfl
  · rintro rfl
    cases x with
    | ok a => exact .ok rfl
    | error e => exact .error e

theorem refl (hQ : ∀ a, Q' a a) (x : Except Fault α) : Agree Q' x x :=
  (eq_iff.mpr rfl).mono fun a _ h => h ▸ hQ a

theorem symm (h : Agree Q x y) : Agree (fun b a => Q a b) y x := by
  cases h with
  | ok h => exact .ok h
  | error e => exact .error e

theorem trans {Q' : β → γ → Prop} {z : Except Fault γ} (h : Agree Q x y) (h' : Agree Q' y z) :
    Agree (fun a c => ∃ b, Q a b ∧ Q' b c) x z := by
  cases h with
  | ok h => cases h' with | ok h' => exact .ok ⟨_, h, h'⟩
  | error e => cases h' with | error => exact .error e

theorem exists_ok {a : α} (h : Agree Q (.ok a) y) : ∃ b, y = .ok b ∧ Q a b := by
  cases h with | ok h => exact ⟨_, rfl, h⟩

theorem eq_error {e : Fault} (h : Agree Q x (.error e)) : x = .error e := by
  cases h with | error => rfl

end Agree

/-- Computations that agree one by one agree as a list. -/
theorem Agree.mapM {α β γ δ : Type} {P : α → β → Prop} {Q : γ → δ → Prop} {f : α → Except Fault γ}
    {g : β → Except Fault δ} (hfg : ∀ a b, P a b → Agree Q (f a) (g b)) {l : List α} {l' : List β}
    (h : List.Forall₂ P l l') : Agree (List.Forall₂ Q) (l.mapM f) (l'.mapM g) := by
  induction h with
  | nil => exact .ok .nil
  | @cons a b l l' hab _ ih =>
    rw [List.mapM_cons, List.mapM_cons]
    have hhead := hfg a b hab
    generalize f a = x at hhead ⊢
    generalize g b = y at hhead ⊢
    generalize l.mapM f = xs at ih ⊢
    generalize l'.mapM g = ys at ih ⊢
    cases hhead with
    | error e => exact .error e
    | ok h =>
      cases ih with
      | error e => exact .error e
      | ok hs => exact .ok (.cons h hs)

theorem mapM_eq_ok {α β : Type} {f : α → Except Fault β} {g : α → β} {l : List α}
    (h : ∀ a ∈ l, f a = .ok (g a)) : l.mapM f = .ok (l.map g) := by
  induction l with
  | nil => rfl
  | cons a l ih =>
    rw [List.mapM_cons, h a (List.mem_cons_self ..), ih fun b hb => h b (List.mem_cons_of_mem _ hb)]
    rfl

theorem forall₂_of_mapM_eq_ok {α β : Type} {f : α → Except Fault β} {l : List α} :
    ∀ {l' : List β}, l.mapM f = .ok l' → List.Forall₂ (fun a b => f a = .ok b) l l' := by
  induction l with
  | nil =>
    intro l' h
    cases h
    exact .nil
  | cons a l ih =>
    intro l' h
    rw [List.mapM_cons] at h
    cases ha : f a with
    | error e =>
      rw [ha] at h
      cases h
    | ok b =>
      cases hl : l.mapM f with
      | error e =>
        rw [ha, hl] at h
        cases h
      | ok bs =>
        rw [ha, hl] at h
        cases h
        exact .cons ha (ih hl)

theorem mapM_eq_ok_of_forall₂ {α β : Type} {f : α → Except Fault β} {l : List α} {l' : List β}
    (h : List.Forall₂ (fun a b => f a = .ok b) l l') : l.mapM f = .ok l' := by
  induction h with
  | nil => rfl
  | cons hab _ ih =>
    rw [List.mapM_cons, hab, ih]
    rfl

lemma mapM_cons_eq_ok_iff {α β : Type} {f : α → Except Fault β} {a : α} {l : List α} {r : List β} :
    (a :: l).mapM f = .ok r ↔ ∃ b bs, f a = .ok b ∧ l.mapM f = .ok bs ∧ r = b :: bs := by
  rw [List.mapM_cons, bind_eq_ok_iff]
  simp only [bind_eq_ok_iff, pure, Except.pure, Except.ok.injEq]
  grind

lemma mapM_singleton_eq_ok_iff {α β : Type} {f : α → Except Fault β} {a : α} {r : List β} :
    [a].mapM f = .ok r ↔ ∃ b, f a = .ok b ∧ r = [b] := by
  rw [mapM_cons_eq_ok_iff]
  constructor
  · rintro ⟨b, _, hb, ⟨⟩, rfl⟩
    exact ⟨b, hb, rfl⟩
  · rintro ⟨b, hb, rfl⟩
    exact ⟨b, [], hb, rfl, rfl⟩

lemma exists_mem_of_forall₂ {α β : Type} {R : α → β → Prop} {l : List α} {l' : List β}
    (h : List.Forall₂ R l l') {a : α} (ha : a ∈ l) : ∃ b ∈ l', R a b := by
  induction h with
  | nil => exact absurd ha List.not_mem_nil
  | @cons a' b l l' hab _ ih =>
    rcases List.mem_cons.mp ha with rfl | ha
    · exact ⟨b, List.mem_cons_self .., hab⟩
    · obtain ⟨b', hb', hab'⟩ := ih ha
      exact ⟨b', List.mem_cons_of_mem _ hb', hab'⟩

lemma exists_of_forall₂_append {α β : Type} {R : α → β → Prop} {a : α} {l m : List α} :
    ∀ {l' : List β}, List.Forall₂ R (l ++ a :: m) l' →
      ∃ init b tail, l' = init ++ b :: tail ∧ R a b ∧ List.Forall₂ R m tail := by
  induction l with
  | nil =>
    intro l' h
    obtain ⟨b, tail, hab, htail, rfl⟩ := List.forall₂_cons_left_iff.mp h
    exact ⟨[], b, tail, rfl, hab, htail⟩
  | cons x l ih =>
    intro l' h
    obtain ⟨y, rest, -, hrest, rfl⟩ := List.forall₂_cons_left_iff.mp h
    obtain ⟨init, b, tail, rfl, hab, htail⟩ := ih hrest
    exact ⟨y :: init, b, tail, rfl, hab, htail⟩

theorem exists_of_mapM_eq_error {α β : Type} {f : α → Except Fault β} {l : List α} {e : Fault}
    (h : l.mapM f = .error e) : ∃ a ∈ l, f a = .error e := by
  induction l with
  | nil => cases h
  | cons a l ih =>
    rw [List.mapM_cons] at h
    cases ha : f a with
    | error e' =>
      rw [ha] at h
      cases h
      exact ⟨a, List.mem_cons_self .., ha⟩
    | ok b =>
      cases hl : l.mapM f with
      | error e' =>
        rw [ha, hl] at h
        cases h
        obtain ⟨a', ha', hfa'⟩ := ih hl
        exact ⟨a', List.mem_cons_of_mem _ ha', hfa'⟩
      | ok bs =>
        rw [ha, hl] at h
        cases h

theorem mapM_congr {α β : Type} {f g : α → Except Fault β} {l : List α}
    (h : ∀ a ∈ l, f a = g a) : l.mapM f = l.mapM g := by
  induction l with
  | nil => rfl
  | cons a l ih =>
    rw [List.mapM_cons, List.mapM_cons, h a (List.mem_cons_self ..),
      ih fun b hb => h b (List.mem_cons_of_mem _ hb)]

namespace Action

variable {σ τ α β γ δ : Type}

/-! ### How actions run -/

lemma exec_of (f : σ → Except Fault α × σ) (s : σ) : (of f).exec s = f s := rfl

@[simp] lemma exec_bind (x : Action σ α) (f : α → Action σ β) (s : σ) :
    (x >>= f).exec s = match x.exec s with
      | (.ok a, s') => (f a).exec s'
      | (.error e, s') => (.error e, s') := by
  simp only [exec, ExceptT.run_bind, StateT.run_bind]
  rcases x.run.run s with ⟨_ | _, _⟩ <;> rfl

lemma exec_bind_of_ok {x : Action σ α} {f : α → Action σ β} {s : σ} {a : α}
    (h : (x.exec s).1 = .ok a) : (x >>= f).exec s = (f a).exec (x.exec s).2 := by
  rw [exec_bind]
  rcases hx : x.exec s with ⟨r, s'⟩
  rw [hx] at h
  cases h
  rfl

lemma exec_bind_of_error {x : Action σ α} {f : α → Action σ β} {s : σ} {e : Fault}
    (h : (x.exec s).1 = .error e) : (x >>= f).exec s = (.error e, (x.exec s).2) := by
  rw [exec_bind]
  rcases hx : x.exec s with ⟨r, s'⟩
  rw [hx] at h
  cases h
  rfl

lemma exec_bind_eq_ok {x : Action σ α} {f : α → Action σ β} {s : σ} {b : β} :
    ((x >>= f).exec s).1 = .ok b ↔
      ∃ a, (x.exec s).1 = .ok a ∧ ((f a).exec (x.exec s).2).1 = .ok b := by
  rw [exec_bind]
  rcases x.exec s with ⟨_ | a, s'⟩ <;> simp

lemma exec_bind_pure (x : Action σ α) (f : α → β) (s : σ) :
    ((do return f (← x)) : Action σ β).exec s = ((x.exec s).1.map f, (x.exec s).2) := by
  rw [exec_bind]
  rcases x.exec s with ⟨_ | a, s'⟩ <;> rfl

@[simp] lemma exec_pure (a : α) (s : σ) : (Pure.pure a : Action σ α).exec s = (.ok a, s) := rfl

@[simp] lemma exec_fail (e : Fault) (s : σ) : (fail e : Action σ α).exec s = (.error e, s) := rfl

@[simp] lemma exec_read (f : σ → Except Fault α) (s : σ) : (read f).exec s = (f s, s) := rfl

lemma exec_write (f : σ → Except Fault σ) (s : σ) :
    (write f).exec s = match f s with
      | .ok s' => (.ok (), s')
      | .error e => (.error e, s) := rfl

lemma exec_change (f : σ → Except Fault (α × σ)) (s : σ) :
    (change f).exec s = match f s with
      | .ok (a, s') => (.ok a, s')
      | .error e => (.error e, s) := rfl

@[simp] lemma exec_within (get : τ → σ) (set : σ → τ → τ) (x : Action σ α) (t : τ) :
    (within get set x).exec t = ((x.exec (get t)).1, set (x.exec (get t)).2 t) := rfl

/-! ### What an action ensures -/

/-- From a state with `P`, the action ends in `Q` with its result or fails in `E` with its fault. -/
def Spec (P : σ → Prop) (x : Action σ α) (Q : α → σ → Prop) (E : Fault → σ → Prop) : Prop :=
  ∀ s, P s → match x.exec s with
    | (.ok a, s') => Q a s'
    | (.error e, s') => E e s'

namespace Spec

variable {P P' : σ → Prop} {x : Action σ α} {Q Q' : α → σ → Prop} {E E' : Fault → σ → Prop}

theorem conseq (h : Spec P x Q E) (hP : ∀ s, P' s → P s) (hQ : ∀ a s, Q a s → Q' a s)
    (hE : ∀ e s, E e s → E' e s) : Spec P' x Q' E' := by
  intro s hs
  have := h s (hP s hs)
  rcases he : x.exec s with ⟨e | a, s'⟩ <;> rw [he] at this
  · exact hE _ _ this
  · exact hQ _ _ this

theorem pre (h : Spec P x Q E) (hP : ∀ s, P' s → P s) : Spec P' x Q E :=
  h.conseq hP (fun _ _ => id) fun _ _ => id

theorem pure {a : α} (h : ∀ s, P s → Q a s) : Spec P (Pure.pure a) Q E := fun s hs => h s hs

theorem fail {e : Fault} (h : ∀ s, P s → E e s) : Spec P (Action.fail e : Action σ α) Q E :=
  fun s hs => h s hs

theorem bind {f : α → Action σ β} {Q' : β → σ → Prop} (hx : Spec P x Q E)
    (hf : ∀ a, Spec (Q a) (f a) Q' E) : Spec P (x >>= f) Q' E := by
  intro s hs
  have := hx s hs
  rw [exec_bind]
  rcases he : x.exec s with ⟨e | a, s'⟩ <;> rw [he] at this
  · exact this
  · exact hf a s' this

theorem read {f : σ → Except Fault α} (hok : ∀ s a, P s → f s = .ok a → Q a s)
    (herr : ∀ s e, P s → f s = .error e → E e s) : Spec P (Action.read f) Q E := by
  intro s hs
  rw [exec_read]
  cases hf : f s with
  | ok a => exact hok s a hs hf
  | error e => exact herr s e hs hf

theorem write {f : σ → Except Fault σ} {Q : Unit → σ → Prop}
    (hok : ∀ s s', P s → f s = .ok s' → Q () s') (herr : ∀ s e, P s → f s = .error e → E e s) :
    Spec P (Action.write f) Q E := by
  intro s hs
  rw [exec_write]
  cases hf : f s with
  | ok s' => exact hok s s' hs hf
  | error e => exact herr s e hs hf

theorem change {f : σ → Except Fault (α × σ)} (hok : ∀ s a s', P s → f s = .ok (a, s') → Q a s')
    (herr : ∀ s e, P s → f s = .error e → E e s) : Spec P (Action.change f) Q E := by
  intro s hs
  rw [exec_change]
  cases hf : f s with
  | ok r => exact hok s r.1 r.2 hs hf
  | error e => exact herr s e hs hf

/-! Actions that keep a property of the state, whether they succeed or fail. -/

theorem pure_keeps (a : α) : Spec P (Pure.pure a) (fun _ => P) E := fun _ hs => hs

theorem fail_keeps (e : Fault) : Spec P (Action.fail e : Action σ α) Q fun _ => P := fun _ hs => hs

theorem read_keeps (f : σ → Except Fault α) : Spec P (Action.read f) (fun _ => P) fun _ => P := by
  apply read
  · intro s a hs _
    exact hs
  · intro s e hs _
    exact hs

theorem read_found (f : σ → Except Fault α) :
    Spec P (Action.read f) (fun a s => P s ∧ f s = .ok a) fun _ => P := by
  apply read
  · intro s a hs hf
    exact ⟨hs, hf⟩
  · intro s e hs _
    exact hs

theorem lift_keeps (r : Except Fault α) : Spec P (Action.lift r) (fun _ => P) fun _ => P :=
  read_keeps fun _ => r

theorem lift_found (r : Except Fault α) :
    Spec P (Action.lift r) (fun a s => P s ∧ r = .ok a) fun _ => P :=
  read_found fun _ => r

theorem write_keeps {f : σ → Except Fault σ} (h : ∀ s s', P s → f s = .ok s' → P s') :
    Spec P (Action.write f) (fun _ => P) fun _ => P := by
  apply write h
  intro s e hs _
  exact hs

theorem change_keeps {f : σ → Except Fault (α × σ)} (h : ∀ s a s', P s → f s = .ok (a, s') → P s') :
    Spec P (Action.change f) (fun _ => P) fun _ => P := by
  apply change h
  intro s e hs _
  exact hs

theorem change_of_ok {f : σ → Except Fault (α × σ)} {Q : σ → Prop}
    (h : ∀ s, P s → ∃ a s', f s = .ok (a, s') ∧ Q s') :
    Spec P (Action.change f) (fun _ => Q) E := by
  intro s hs
  obtain ⟨a, s', hf, hq⟩ := h s hs
  rw [exec_change, hf]
  exact hq

theorem write_of_ok {f : σ → Except Fault σ} {Q : σ → Prop}
    (h : ∀ s, P s → ∃ s', f s = .ok s' ∧ Q s') : Spec P (Action.write f) (fun _ => Q) E := by
  intro s hs
  obtain ⟨s', hf, hq⟩ := h s hs
  rw [exec_write, hf]
  exact hq

/-- An action on a part of the state, where the rest of the state is the one before. -/
theorem within {get : τ → σ} {set : σ → τ → τ} {P : τ → Prop} {Q : α → τ → Prop}
    {E : Fault → τ → Prop}
    (h : ∀ t, P t → Spec (fun s => s = get t) x (fun a s => Q a (set s t)) fun e s => E e (set s t)) :
    Spec P (Action.within get set x) Q E := by
  intro t ht
  have := h t ht _ rfl
  rw [exec_within]
  rcases he : x.exec (get t) with ⟨e | a, s'⟩ <;> rw [he] at this <;> exact this

lemma exec_snd_eq {s : σ}
    (h : Spec (fun s' => s' = s) x (fun _ s' => s' = s) fun _ s' => s' = s) : (x.exec s).2 = s := by
  have hspec := h s rfl
  rcases hx : x.exec s with ⟨_ | a, s'⟩ <;> rw [hx] at hspec
  · exact hspec
  · exact hspec

end Spec

/-! ### Actions that do the same -/

/-- From related states, both actions end with related results or fail with one fault, in related
states. -/
def Sim (R : σ → τ → Prop) (Q : α → β → Prop) (x : Action σ α) (y : Action τ β) : Prop :=
  ∀ ⦃s t⦄, R s t → Agree Q (x.exec s).1 (y.exec t).1 ∧ R (x.exec s).2 (y.exec t).2

namespace Sim

variable {R : σ → τ → Prop} {Q : α → β → Prop} {x : Action σ α} {y : Action τ β}

theorem pure {a : α} {b : β} (h : Q a b) : Sim R Q (Pure.pure a) (Pure.pure b) :=
  fun _ _ hst => ⟨.ok h, hst⟩

theorem fail (e : Fault) : Sim R Q (Action.fail e) (Action.fail e) := fun _ _ hst => ⟨.error e, hst⟩

theorem bind {f : α → Action σ γ} {g : β → Action τ δ} {Q' : γ → δ → Prop} (hxy : Sim R Q x y)
    (hfg : ∀ a b, Q a b → Sim R Q' (f a) (g b)) : Sim R Q' (x >>= f) (y >>= g) := by
  intro s t hst
  obtain ⟨hout, hst'⟩ := hxy hst
  rw [exec_bind, exec_bind]
  generalize x.exec s = ox at hout hst' ⊢
  generalize y.exec t = oy at hout hst' ⊢
  obtain ⟨rx, s'⟩ := ox
  obtain ⟨ry, t'⟩ := oy
  cases hout with
  | ok h => exact hfg _ _ h hst'
  | error e => exact ⟨.error e, hst'⟩

theorem read {f : σ → Except Fault α} {g : τ → Except Fault β}
    (h : ∀ s t, R s t → Agree Q (f s) (g t)) : Sim R Q (Action.read f) (Action.read g) :=
  fun s t hst => ⟨h s t hst, hst⟩

theorem read_eq {f : σ → Except Fault α} {g : τ → Except Fault α} (h : ∀ s t, R s t → f s = g t) :
    Sim R Eq (Action.read f) (Action.read g) := by
  apply read
  intro s t hst
  exact Agree.eq_iff.mpr (h s t hst)

theorem lift_eq (r : Except Fault α) : Sim R Eq (Action.lift r) (Action.lift r) :=
  read_eq fun _ _ _ => rfl

theorem write {f : σ → Except Fault σ} {g : τ → Except Fault τ} {Q : Unit → Unit → Prop}
    (hQ : Q () ()) (h : ∀ s t, R s t → Agree R (f s) (g t)) :
    Sim R Q (Action.write f) (Action.write g) := by
  intro s t hst
  have hfg := h s t hst
  rw [exec_write, exec_write]
  generalize f s = rf at hfg ⊢
  generalize g t = rg at hfg ⊢
  cases hfg with
  | ok h => exact ⟨.ok hQ, h⟩
  | error e => exact ⟨.error e, hst⟩

theorem change {f : σ → Except Fault (α × σ)} {g : τ → Except Fault (β × τ)}
    (h : ∀ s t, R s t → Agree (fun a b => Q a.1 b.1 ∧ R a.2 b.2) (f s) (g t)) :
    Sim R Q (Action.change f) (Action.change g) := by
  intro s t hst
  have hfg := h s t hst
  rw [exec_change, exec_change]
  generalize f s = rf at hfg ⊢
  generalize g t = rg at hfg ⊢
  cases hfg with
  | ok h => exact ⟨.ok h.1, h.2⟩
  | error e => exact ⟨.error e, hst⟩

end Sim

end Action

end SemanticStore
