import RunReport.Proofs.Lookup
/-!
# Two readings that concur

Records that are written in two ways may say the same. Here is what it means that the readings of
both have the same outcome, for the parts of a computation one after the other: both fail, for the
same reason, or both succeed and the results go together.
-/

namespace RunReport

/-- Both fail for the same reason, or both succeed with results that go together. -/
def Concur {α β : Type} (R : α → β → Prop) : Except Error α → Except Error β → Prop
  | .ok a, .ok b => R a b
  | .error e, .error e' => e = e'
  | _, _ => False

namespace Concur

variable {α β γ δ : Type} {R : α → β → Prop} {S : γ → δ → Prop} {x : Except Error α}
  {y : Except Error β}

theorem bind (h : Concur R x y) {f : α → Except Error γ} {g : β → Except Error δ}
    (hf : ∀ a b, R a b → Concur S (f a) (g b)) : Concur S (x >>= f) (y >>= g) := by
  cases x with
  | error e =>
    cases y with
    | error e' => exact h
    | ok b => exact h.elim
  | ok a =>
    cases y with
    | error e' => exact h.elim
    | ok b => exact hf a b h

/-- After the same reading. -/
theorem after {f : α → Except Error γ} {g : α → Except Error δ} (h : ∀ a, Concur S (f a) (g a)) :
    Concur S (x >>= f) (x >>= g) := by
  cases x with
  | error e => rfl
  | ok a => exact h a

theorem mono (h : Concur R x y) {R' : α → β → Prop} (more : ∀ a b, R a b → R' a b) :
    Concur R' x y := by
  cases x <;> cases y <;> first | exact more _ _ h | exact h

theorem map (h : Concur R x y) {f : α → γ} {g : β → δ} (hf : ∀ a b, R a b → S (f a) (g b)) :
    Concur S (x.map f) (y.map g) := by
  cases x <;> cases y <;> first | exact hf _ _ h | exact h

theorem refl {R : α → α → Prop} (same : ∀ a, R a a) (x : Except Error α) : Concur R x x := by
  cases x with
  | error e => rfl
  | ok a => exact same a

theorem eq {y : Except Error α} (h : Concur (· = ·) x y) : x = y := by
  cases x <;> cases y <;> first | exact congrArg _ h | exact h.elim

end Concur

/-! ## Lists -/

/-- Place by place the items of two lists go together. -/
def Matched {α β : Type} (R : Nat → α → β → Prop) (xs : List α) (ys : List β) : Prop :=
  ∀ i, Option.Rel (R i) xs[i]? ys[i]?

namespace Matched

variable {α β : Type} {R : Nat → α → β → Prop} {xs : List α} {ys : List β}

theorem of_length (length : xs.length = ys.length)
    (items : ∀ i a b, xs[i]? = some a → ys[i]? = some b → R i a b) : Matched R xs ys := by
  intro i
  cases hx : xs[i]? with
  | none =>
    rw [List.getElem?_eq_none (by have := List.getElem?_eq_none_iff.1 hx; omega)]
    exact .none
  | some a =>
    have inside : i < ys.length := by
      have := (List.getElem?_eq_some_iff.1 hx).1
      omega
    rw [List.getElem?_eq_getElem inside]
    exact .some (items i a _ hx (List.getElem?_eq_getElem inside))

theorem length_eq (h : Matched R xs ys) : xs.length = ys.length := by
  rcases Nat.lt_trichotomy xs.length ys.length with shorter | same | longer
  · have there := h xs.length
    rw [List.getElem?_eq_none (Nat.le_refl _), List.getElem?_eq_getElem shorter] at there
    cases there
  · exact same
  · have there := h ys.length
    rw [List.getElem?_eq_none (Nat.le_refl _), List.getElem?_eq_getElem longer] at there
    cases there

theorem getLast? (h : Matched R xs ys) :
    Option.Rel (R (xs.length - 1)) xs.getLast? ys.getLast? := by
  rw [List.getLast?_eq_getElem?, List.getLast?_eq_getElem?, ← h.length_eq]
  exact h _

theorem refl {R : Nat → α → α → Prop} (same : ∀ i a, R i a a) (xs : List α) : Matched R xs xs := by
  intro i
  cases xs[i]? with
  | none => exact .none
  | some a => exact .some (same i a)

theorem mono (h : Matched R xs ys) {S : Nat → α → β → Prop} (more : ∀ i a b, R i a b → S i a b) :
    Matched S xs ys := by
  intro i
  have there := h i
  cases hx : xs[i]? <;> cases hy : ys[i]? <;> rw [hx, hy] at there <;> cases there
  · exact .none
  · exact .some (more i _ _ ‹_›)

/-- A slot that must be there. -/
theorem get {R : Nat → Raw → Raw → Prop} {xs ys : List Raw} (h : Matched R xs ys) (context : String)
    (i : Nat) : Concur (R i) ((Element.mk context xs).get i) ((Element.mk context ys).get i) := by
  have there := h i
  simp only [Element.get, Element.size, h.length_eq]
  cases hx : xs[i]? <;> cases hy : ys[i]? <;> rw [hx, hy] at there <;> cases there
  · rfl
  · assumption

end Matched

/-! ## Lookups -/

namespace Lookup

open Effects

variable {α β γ δ : Type} {e e' : List String}

/-- On all sound tables with these entries the lookups concur. -/
def Concur (e e' : List String) (R : α → β → Prop) (x : Lookup α) (y : Lookup β) : Prop :=
  ∀ t t' : StringTable, t.Sound → t'.Sound → t.entries = e → t'.entries = e' →
    RunReport.Concur R (x.run t).1 (y.run t').1 ∧
    ((x.run t).2.Sound ∧ (x.run t).2.entries = e) ∧ (y.run t').2.Sound ∧ (y.run t').2.entries = e'

theorem concur_pure {R : α → β → Prop} {a : α} {b : β} (h : R a b) :
    Concur e e' R (pure a) (pure b) :=
  fun _ _ sound sound' entries entries' => ⟨h, ⟨sound, entries⟩, sound', entries'⟩

theorem concur_except {R : α → β → Prop} {x : Except Error α} {y : Except Error β}
    (h : RunReport.Concur R x y) : Concur e e' R (liftM x) (liftM y) :=
  fun _ _ sound sound' entries entries' => ⟨h, ⟨sound, entries⟩, sound', entries'⟩

theorem concur_bind {R : α → β → Prop} {S : γ → δ → Prop} {x : Lookup α} {y : Lookup β}
    {f : α → Lookup γ} {g : β → Lookup δ} (h : Concur e e' R x y)
    (hf : ∀ a b, R a b → Concur e e' S (f a) (g b)) : Concur e e' S (x >>= f) (y >>= g) := by
  intro t t' sound sound' entries entries'
  have first := h t t' sound sound' entries entries'
  rw [run_bind, run_bind]
  rcases hx : x.run t with ⟨_ | a, u⟩ <;> rcases hy : y.run t' with ⟨_ | b, u'⟩ <;>
    rw [hx, hy] at first
  · exact first
  · exact first.1.elim
  · exact first.1.elim
  · obtain ⟨related, ⟨usound, uentries⟩, usound', uentries'⟩ := first
    exact hf a b related u u' usound usound' uentries uentries'

/-- After the same reading. -/
theorem concur_after {S : γ → δ → Prop} {x y : Except Error α} {f : α → Lookup γ} {g : α → Lookup δ}
    (same : x = y) (h : ∀ a, Concur e e' S (f a) (g a)) :
    Concur e e' S (liftM x >>= f) (liftM y >>= g) := by
  subst same
  refine concur_bind (concur_except (.refl (fun _ => rfl) x)) fun a b hab => ?_
  subst hab
  exact h a

/-- Steady lookups concur if what they read on fresh tables does. -/
theorem Steady.concur {R : α → β → Prop} {x : Lookup α} {y : Lookup β} (hx : Steady x)
    (hy : Steady y) (h : RunReport.Concur R (read e x) (read e' y)) : Concur e e' R x y := by
  rintro t t' sound sound' rfl rfl
  obtain ⟨result, steady⟩ := hx t sound
  obtain ⟨result', steady'⟩ := hy t' sound'
  rw [result, result']
  exact ⟨h, steady, steady'⟩

theorem Concur.read {R : α → β → Prop} {x : Lookup α} {y : Lookup β} (h : Concur e e' R x y) :
    RunReport.Concur R (read e x) (read e' y) :=
  (h _ _ (StringTable.sound_ofEntries e) (StringTable.sound_ofEntries e') rfl rfl).1

end Lookup

/-! ## References -/

/-- References into two tables that denote the same. -/
def SameText (e e' : List String) (u v : Option Raw) : Prop :=
  Lookup.read e (StringTable.lookup u) = Lookup.read e' (StringTable.lookup v)

namespace SameText

open Lookup

variable {e e' : List String} {u v : Option Raw}

theorem lookup (h : SameText e e' u v) :
    Lookup.Concur e e' (· = ·) (StringTable.lookup u) (StringTable.lookup v) := by
  refine (steady_lookup u).concur (steady_lookup v) ?_
  rw [show Lookup.read e _ = Lookup.read e' _ from h]
  exact .refl (fun _ => rfl) _

theorem stringOf {u v : Raw} (h : SameText e e' (some u) (some v)) :
    Lookup.Concur e e' (· = ·) (Coding.stringOf u) (Coding.stringOf v) :=
  concur_bind h.lookup fun _ _ same => concur_pure (congrArg _ same)

theorem stringsOf {xs ys : List Raw}
    (h : Matched (fun _ u v => SameText e e' (some u) (some v)) xs ys) :
    Lookup.Concur e e' (· = ·) (Coding.stringsOf xs) (Coding.stringsOf ys) := by
  induction xs generalizing ys with
  | nil =>
    cases List.length_eq_zero_iff.1 h.length_eq.symm
    exact concur_pure rfl
  | cons x xs ih =>
    cases ys with
    | nil => cases h.length_eq
    | cons y ys =>
      have first : SameText e e' (some x) (some y) := by
        cases h 0
        assumption
      refine concur_bind first.stringOf fun s s' same => ?_
      refine concur_bind (ih fun i => h (i + 1)) fun ss ss' same' => ?_
      exact concur_pure (by rw [same, same'])

end SameText

end RunReport
