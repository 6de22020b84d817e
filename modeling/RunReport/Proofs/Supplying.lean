import Mathlib.Algebra.BigOperators.Group.Finset.Piecewise
import Mathlib.Data.Finset.Card
import RunReport.Proofs.Caching
/-!
# What a lazy list promises

A list stands beside its creator, which may fail and may answer differently each time. All that the
list answers can be read off the calls of the creator so far: an index is filled by the first call
for it that succeeds, and no call for it follows. The length, the slots and the full list stay linked
throughout, and once the full list is there no request changes anything.
-/

namespace RunReport

open Effects

variable {ε α τ : Type}

/-- The items made so far are counted by the places that are filled. -/
theorem LazyList.created_eq_card (l : LazyList α) :
    l.created = ((Finset.range l.slots.length).filter fun i => (l.slot? i).isSome).card := by
  obtain ⟨length, measured, slots⟩ := l
  rw [Finset.card_filter]
  change slots.countP (·.isSome) =
    ∑ i ∈ Finset.range slots.length, if (slots[i]?.join).isSome then 1 else 0
  induction slots with
  | nil => rfl
  | cons o slots ih =>
    rw [List.countP_cons, ih, List.length_cons, Finset.sum_range_succ']
    cases o <;> simp

/-- A call of a creator, and what it gave. -/
structure Attempt (ε α : Type) where
  index : Nat
  result : Except ε α

namespace Attempt

/-- The indexes for which an attempt succeeded. -/
def succeeded (attempts : List (Attempt ε α)) : Finset Nat :=
  (attempts.filterMap fun a => a.result.toOption.map fun _ => a.index).toFinset

/-- Attempts that made these items. -/
def successes (made : List (Nat × α)) : List (Attempt ε α) :=
  made.map fun m => ⟨m.1, .ok m.2⟩

variable {attempts : List (Attempt ε α)} {i j : Nat} {a : α} {e : ε}

theorem mem_succeeded : i ∈ succeeded attempts ↔ ∃ a, ⟨i, .ok a⟩ ∈ attempts := by
  simp only [succeeded, List.mem_toFinset, List.mem_filterMap, Option.map_eq_some_iff]
  constructor
  · rintro ⟨⟨j, _ | a⟩, mem, b, result, rfl⟩
    · cases result
    · exact ⟨a, mem⟩
  · rintro ⟨a, mem⟩
    exact ⟨_, mem, a, rfl, rfl⟩

theorem succeeded_success :
    i ∈ succeeded (attempts ++ [⟨j, .ok a⟩]) ↔ i ∈ succeeded attempts ∨ i = j := by
  simp [mem_succeeded, exists_or]

theorem succeeded_failure :
    i ∈ succeeded (attempts ++ [⟨j, .error e⟩]) ↔ i ∈ succeeded attempts := by
  simp [mem_succeeded]

end Attempt

open Attempt

/-- A list beside its creator: what the creator remembers, and its calls so far, oldest first. -/
structure Supply (ε α τ : Type) where
  list : LazyList α
  memory : τ
  attempts : List (Attempt ε α)

namespace Supply

/-- A list of which nothing has been asked. -/
def fresh (n : Nat) (memory : τ) : Supply ε α τ :=
  ⟨.ofLength n, memory, []⟩

def place : Place (Supply ε α τ) α where
  view s := s.list
  update f s := { s with list := f s.list }

section Requests

variable (create : Nat → ExceptT ε (StateM τ) α)

/-- Calls the creator and notes the call. -/
def attempt (i : Nat) : ExceptT ε (StateM (Supply ε α τ)) α := do
  let s ← get
  let (result, memory) := (create i).run s.memory
  set { s with memory, attempts := s.attempts ++ [Attempt.mk i result] }
  result

/-- What a caller may ask of a list. -/
inductive Request where
  | get (i : Nat)
  | items
  | last
  | length
  | created

inductive Answer (α : Type) where
  | item (found : Option α)
  | items (all : List α)
  | number (n : Nat)

def ask : Request → ExceptT ε (StateM (Supply ε α τ)) (Answer α)
  | .get i => .item <$> place.get (attempt create) i
  | .items => .items <$> place.items (attempt create)
  | .last => .item <$> place.last (attempt create)
  | .length => .number <$> place.length
  | .created => do return .number (← get).list.created

def answer (s : Supply ε α τ) (q : Request) : Except ε (Answer α) :=
  ((ask create q).run s).1

def next (s : Supply ε α τ) (q : Request) : Supply ε α τ :=
  ((ask create q).run s).2

/-- After some requests, each of which may have failed. -/
def after (s : Supply ε α τ) (qs : List Request) : Supply ε α τ :=
  qs.foldl (next create) s

/-- From here on the item at `i` in a list of `n` is `a`, whichever way it is asked for. -/
def Shows (n : Nat) (s : Supply ε α τ) (i : Nat) (a : α) : Prop :=
  ∀ later,
    (s.after create later).answer create (.get i) = .ok (.item (some a)) ∧
    (n = i + 1 → (s.after create later).answer create .last = .ok (.item (some a))) ∧
    ∀ all, (s.after create later).answer create .items = .ok (.items all) → all[i]? = some a

end Requests

/-! ## What is in a list -/

variable (create : Nat → ExceptT ε (StateM τ) α) {n i : Nat} {a : α} {s t : Supply ε α τ}

/-- A list of `n` holds what the calls so far have made, and each index was called for until it
succeeded at most. -/
structure Stocked (n : Nat) (s : Supply ε α τ) : Prop where
  sound : s.list.Sound
  size : s.list.size = n
  slot : ∀ i a, s.list.slot? i = some a ↔ ⟨i, .ok a⟩ ∈ s.attempts
  inside : ∀ a ∈ s.attempts, a.index < n
  once : s.attempts.Pairwise fun a b => a.index = b.index → ∃ e, a.result = .error e

theorem stocked_fresh (n : Nat) (memory : τ) : Stocked n (fresh n memory : Supply ε α τ) where
  sound := LazyList.sound_ofLength n
  size := rfl
  slot i a := by simp [fresh, LazyList.slot?_ofLength]
  inside := by simp [fresh]
  once := .nil

theorem Stocked.length (h : Stocked n s) : s.list.length = n :=
  h.sound.length.trans h.size

theorem Stocked.slot?_eq_none (h : Stocked n s) (missing : i ∉ succeeded s.attempts) :
    s.list.slot? i = none := by
  cases slot : s.list.slot? i with
  | none => rfl
  | some a => exact absurd (mem_succeeded.2 ⟨a, (h.slot i a).1 slot⟩) missing

theorem Stocked.created (h : Stocked n s) : s.list.created = (succeeded s.attempts).card := by
  rw [LazyList.created_eq_card]
  congr 1
  ext i
  rw [Finset.mem_filter, Finset.mem_range, Option.isSome_iff_exists, mem_succeeded]
  constructor
  · rintro ⟨-, a, slot⟩
    exact ⟨a, (h.slot i a).1 slot⟩
  · rintro ⟨a, made⟩
    have slot := (h.slot i a).2 made
    exact ⟨LazyList.slot?_within slot, a, slot⟩

/-- The supply once the length has been asked for. -/
def measured (s : Supply ε α τ) : Supply ε α τ :=
  { s with list := s.list.measure }

theorem Stocked.measured (h : Stocked n s) : Stocked n s.measured :=
  ⟨h.sound.measure, h.size, h.slot, h.inside, h.once⟩

/-- The supply once the creator has been called for an item. -/
def called (s : Supply ε α τ) (i : Nat) : Supply ε α τ :=
  match (create i).run s.memory with
  | (.ok a, memory) => ⟨s.list.measure.fill i a, memory, s.attempts ++ [⟨i, .ok a⟩]⟩
  | (.error e, memory) => ⟨s.list.measure, memory, s.attempts ++ [⟨i, .error e⟩]⟩

theorem called_grows (s : Supply ε α τ) (i : Nat) : s.list.Grows (s.called create i).list := by
  rw [called]
  split
  · exact (LazyList.grows_measure _).trans (LazyList.grows_fill _ i _)
  · exact LazyList.grows_measure _

theorem called_attempts (s : Supply ε α τ) (i : Nat) : (s.called create i).attempts =
    s.attempts ++ [⟨i, ((create i).run s.memory).1⟩] := by
  simp only [called]
  rcases (create i).run s.memory with ⟨_ | a, memory⟩ <;> rfl

theorem Stocked.called (h : Stocked n s) (inside : i < n) (missing : i ∉ succeeded s.attempts) :
    Stocked n (s.called create i) := by
  have failed : ∀ b ∈ s.attempts, b.index = i → ∃ e, b.result = .error e := by
    rintro ⟨j, e | b⟩ mem rfl
    · exact ⟨e, rfl⟩
    · exact absurd (mem_succeeded.2 ⟨b, mem⟩) missing
  have empty : s.list.measure.slot? i = none := h.slot?_eq_none missing
  have place : i < s.list.measure.length := h.measured.length.symm ▸ inside
  constructor
  case sound =>
    rw [Supply.called]
    split
    · exact h.sound.measure.fill i _
    · exact h.sound.measure
  case size => exact (s.called_grows create i).size.trans h.size
  case slot =>
    intro j b
    rw [Supply.called]
    split
    · rename_i a memory run
      by_cases same : j = i
      · subst same
        have new : ⟨j, .ok b⟩ ∉ s.attempts := fun mem => missing (mem_succeeded.2 ⟨b, mem⟩)
        simp [LazyList.slot?_fill_empty a place empty, new, eq_comm]
      · simp [s.list.measure.slot?_fill_other a same, LazyList.slot?_measure, h.slot, same]
    · simp [LazyList.slot?_measure, h.slot]
  case inside =>
    intro b mem
    rw [called_attempts, List.mem_append, List.mem_singleton] at mem
    rcases mem with old | rfl
    · exact h.inside b old
    · exact inside
  case once =>
    rw [called_attempts, List.pairwise_append]
    refine ⟨h.once, List.pairwise_singleton .., ?_⟩
    intro b mem c new
    rw [List.mem_singleton] at new
    subst new
    exact failed b mem

/-! ## One item -/

theorem Stocked.within (h : Stocked n s) :
    i < (place.view (place.update (·.measure) s)).length ↔ i < n := by
  rw [← h.length]
  rfl

theorem Stocked.get_outside (h : Stocked n s) (outside : n ≤ i) :
    (place.get (attempt create) i).run s = (.ok none, s.measured) := by
  rw [Place.get_run, if_neg (mt h.within.1 (by omega))]
  rfl

/-- An item that was made is answered from its slot. -/
theorem Stocked.get_made (h : Stocked n s) (made : ⟨i, .ok a⟩ ∈ s.attempts) :
    (place.get (attempt create) i).run s = (.ok (some a), s.measured) := by
  have slot : (place.view (place.update (·.measure) s)).slot? i = some a := (h.slot i a).2 made
  rw [Place.get_run, if_pos (h.within.2 (h.inside _ made)), slot]
  rfl

/-- For an item that was not made the creator is called once, and its answer is the list's. -/
theorem Stocked.get_missing (h : Stocked n s) (inside : i < n)
    (missing : i ∉ succeeded s.attempts) :
    (place.get (attempt create) i).run s =
      (((create i).run s.memory).1.map some, s.called create i) := by
  have empty : (place.view (place.update (·.measure) s)).slot? i = none := h.slot?_eq_none missing
  have filled (a : α) := LazyList.slot?_fill_empty a (h.measured.length.symm ▸ inside) empty
  have call : (attempt create i).run (place.update (·.measure) s) =
      (((create i).run s.memory).1,
        { s.measured with
          memory := ((create i).run s.memory).2
          attempts := s.attempts ++ [⟨i, ((create i).run s.memory).1⟩] }) := rfl
  rw [Place.get_run, if_pos (h.within.2 inside), empty]
  simp only [call, Supply.called]
  rcases (create i).run s.memory with ⟨e | a, memory⟩
  · rfl
  · exact Prod.ext (congrArg Except.ok (filled a)) rfl

theorem Stocked.get (h : Stocked n s) (i : Nat) :
    Stocked n ((place.get (attempt create) i).run s).2 ∧
      s.list.Grows ((place.get (attempt create) i).run s).2.list ∧
      s.attempts <+: ((place.get (attempt create) i).run s).2.attempts := by
  rcases Nat.lt_or_ge i n with inside | outside
  · by_cases made : i ∈ succeeded s.attempts
    · obtain ⟨a, made⟩ := mem_succeeded.1 made
      rw [h.get_made create made]
      exact ⟨h.measured, LazyList.grows_measure _, List.prefix_refl _⟩
    · rw [h.get_missing create inside made]
      refine ⟨h.called create inside made, called_grows create s i, ?_⟩
      rw [called_attempts]
      exact List.prefix_append ..
  · rw [h.get_outside create outside]
    exact ⟨h.measured, LazyList.grows_measure _, List.prefix_refl _⟩

/-- Each request keeps what links the cells of the list. -/
theorem keeps_stocked (n : Nat) :
    (place : Place (Supply ε α τ) α).Keeps (attempt create) (Stocked n) where
  sound _ h := h.sound
  view _ _ _ := rfl
  same f s _ same := by
    change { s with list := f s.list } = s
    rw [show f s.list = s.list from same]
  measure _ h := h.measured
  get i _ h := ⟨(h.get create i).1, (h.get create i).2.1⟩

theorem Stocked.last_empty (h : Stocked 0 s) :
    (place.last (attempt create)).run s = (.ok none, s.measured) := by
  have length : (place.view (place.update (·.measure) s)).length = 0 := h.length
  rw [Place.last_run, length]
  rfl

theorem Stocked.last_run (h : Stocked (i + 1) s) :
    (place.last (attempt create)).run s = (place.get (attempt create) i).run s := by
  have length : (place.view (place.update (·.measure) s)).length = i + 1 := h.length
  rw [Place.last_run, length]
  simp only [Place.get_run]
  rfl

/-! ## All items -/

/-- Through some indexes, items that were made are taken and missing ones are made. The logs are
those of the calls before and after. -/
inductive Collects :
    List Nat → List α → List (Attempt ε α) → List (Attempt ε α) → Prop
  | nil {log} : Collects [] [] log log
  | made {i is a all log log'} (made : ⟨i, .ok a⟩ ∈ log) (rest : Collects is all log log') :
      Collects (i :: is) (a :: all) log log'
  | missing {i is a all log log'} (missing : i ∉ succeeded log)
      (rest : Collects is all (log ++ [⟨i, .ok a⟩]) log') : Collects (i :: is) (a :: all) log log'

namespace Collects

variable {is : List Nat} {all : List α} {log log' : List (Attempt ε α)}

theorem grows (h : Collects is all log log') : log <+: log' := by
  induction h with
  | nil => exact List.prefix_refl _
  | made _ _ ih => exact ih
  | missing _ _ ih => exact (List.prefix_append ..).trans ih

theorem items (h : Collects is all log log') :
    List.Forall₂ (fun i a => ⟨i, .ok a⟩ ∈ log') is all := by
  induction h with
  | nil => exact .nil
  | made made rest ih => exact .cons (rest.grows.subset made) ih
  | missing _ rest ih => exact .cons (rest.grows.subset (by simp)) ih

theorem mem_succeeded (h : Collects is all log log') (mem : i ∈ is) : i ∈ succeeded log' := by
  obtain ⟨k, inside, rfl⟩ := List.getElem_of_mem mem
  have item := (List.forall₂_iff_get.1 h.items).2 k inside (h.items.length_eq ▸ inside)
  exact Attempt.mem_succeeded.2 ⟨_, item⟩

/-- The creator is called for the missing items, in order. -/
theorem log_eq (h : Collects is all log log') (distinct : is.Nodup) :
    ∃ made, log' = log ++ successes made ∧
      made.map Prod.fst = is.filter (· ∉ succeeded log) := by
  induction h with
  | nil => exact ⟨[], by simp [successes], rfl⟩
  | @made i is a _ log _ made _ ih =>
    obtain ⟨new, log', indexes⟩ := ih distinct.of_cons
    refine ⟨new, log', ?_⟩
    rw [indexes, List.filter_cons_of_neg]
    simpa using Attempt.mem_succeeded.2 ⟨a, made⟩
  | @missing i is a _ log _ missing _ ih =>
    obtain ⟨new, log', indexes⟩ := ih distinct.of_cons
    refine ⟨(i, a) :: new, ?_, ?_⟩
    · rw [log', List.append_assoc]
      rfl
    · rw [List.map_cons, indexes, List.filter_cons_of_pos (by simpa using missing)]
      congr 1
      apply List.filter_congr
      intro j mem
      have other : j ≠ i := by
        rintro rfl
        exact (List.nodup_cons.1 distinct).1 mem
      simp [succeeded_success, other]

end Collects

/-- What stands before an element of a range is the range up to it. -/
theorem range_split {before later : List Nat} (h : List.range n = before ++ i :: later) :
    before = List.range i ∧ i < n := by
  rw [List.range_eq_range', List.range'_eq_append_iff] at h
  obtain ⟨k, -, rfl, rest⟩ := h
  obtain ⟨here, inside, -⟩ := List.range'_eq_cons_iff.1 rest.symm
  obtain rfl : k = i := by omega
  exact ⟨List.range_eq_range'.symm, by omega⟩

/-- What comes of going through some indexes: all items, or those before the first that fails. -/
inductive Yields :
    List Nat → List (Attempt ε α) → Except ε (List α) → List (Attempt ε α) → Prop
  | all {is all log log'} (collects : Collects is all log log') : Yields is log (.ok all) log'
  | stuck {before i later all log log' e} (collects : Collects before all log log')
      (missing : i ∉ succeeded log') :
      Yields (before ++ i :: later) log (.error e) (log' ++ [⟨i, .error e⟩])

namespace Yields

variable {is : List Nat} {r : Except ε (List α)} {all : List α} {e : ε}
  {log log' : List (Attempt ε α)}

theorem made (made : ⟨i, .ok a⟩ ∈ log) (rest : Yields is log r log') :
    Yields (i :: is) log (r.map (a :: ·)) log' := by
  cases rest with
  | all collects => exact .all (.made made collects)
  | stuck collects stuck => exact .stuck (.made made collects) stuck

theorem missing (missing : i ∉ succeeded log) (rest : Yields is (log ++ [⟨i, .ok a⟩]) r log') :
    Yields (i :: is) log (r.map (a :: ·)) log' := by
  cases rest with
  | all collects => exact .all (.missing missing collects)
  | stuck collects stuck => exact .stuck (.missing missing collects) stuck

theorem grows (h : Yields is log r log') : log <+: log' := by
  cases h with
  | all collects => exact collects.grows
  | stuck collects _ => exact collects.grows.trans (List.prefix_append ..)

theorem collects (h : Yields is log (.ok all) log') : Collects is all log log' := by
  cases h with
  | all collects => exact collects

theorem stuck_at (h : Yields (List.range n) log (.error e) log') :
    ∃ i all log₁, i < n ∧ Collects (List.range i) all log log₁ ∧ i ∉ succeeded log₁ ∧
      log' = log₁ ++ [⟨i, .error e⟩] := by
  generalize range : List.range n = is at h
  cases h with
  | @stuck _ i _ all _ log' _ collects missing =>
    obtain ⟨rfl, inside⟩ := range_split range
    exact ⟨i, all, log', inside, collects, missing, rfl⟩

end Yields

theorem itemsAt_cons {is : List Nat}
    (got : (place.get (attempt create) i).run s = (.ok (some a), t)) :
    (place.itemsAt (attempt create) (i :: is)).run s =
      (((place.itemsAt (attempt create) is).run t).1.map (a :: ·),
        ((place.itemsAt (attempt create) is).run t).2) := by
  rw [Place.itemsAt, run_bind_ok got, run_bind]
  rcases (place.itemsAt (attempt create) is).run t with ⟨_ | all, u⟩ <;> rfl

theorem itemsAt_stuck {is : List Nat} {e : ε}
    (failed : (place.get (attempt create) i).run s = (.error e, t)) :
    (place.itemsAt (attempt create) (i :: is)).run s = (.error e, t) := by
  rw [Place.itemsAt, run_bind_error failed]

theorem Stocked.itemsAt (h : Stocked n s) (is : List Nat) (inside : ∀ i ∈ is, i < n) :
    Stocked n ((place.itemsAt (attempt create) is).run s).2 ∧
      Yields is s.attempts ((place.itemsAt (attempt create) is).run s).1
        ((place.itemsAt (attempt create) is).run s).2.attempts := by
  induction is generalizing s with
  | nil => exact ⟨h, .all .nil⟩
  | cons i is ih =>
    have here : i < n := inside i List.mem_cons_self
    have later : ∀ j ∈ is, j < n := fun j mem => inside j (List.mem_cons_of_mem i mem)
    by_cases made : i ∈ succeeded s.attempts
    · obtain ⟨a, made⟩ := mem_succeeded.1 made
      obtain ⟨stocked, rest⟩ := ih h.measured later
      rw [itemsAt_cons create (h.get_made create made)]
      exact ⟨stocked, rest.made made⟩
    · have got := h.get_missing create here made
      have next := h.called create here made
      have log := called_attempts create s i
      cases result : ((create i).run s.memory).1 with
      | error e =>
        rw [result] at got log
        rw [itemsAt_stuck create got, log]
        have stuck : Yields ([] ++ i :: is) s.attempts (.error e) _ := .stuck .nil made
        exact ⟨next, stuck⟩
      | ok a =>
        rw [result] at got log
        obtain ⟨stocked, rest⟩ := ih next later
        rw [log] at rest
        rw [itemsAt_cons create got]
        exact ⟨stocked, rest.missing made⟩

/-- Items that were made are passed over, and the first one that was not is called for. -/
theorem Stocked.itemsAt_resumes (h : Stocked n s) {pre post : List Nat}
    (made : ∀ j ∈ pre, j ∈ succeeded s.attempts) (inside : ∀ j ∈ i :: post, j < n)
    (missing : i ∉ succeeded s.attempts) :
    s.attempts ++ [⟨i, ((create i).run s.memory).1⟩] <+:
      ((place.itemsAt (attempt create) (pre ++ i :: post)).run s).2.attempts := by
  induction pre generalizing s with
  | cons j pre ih =>
    -- Taking an item that was made changes neither the calls nor what the creator remembers.
    obtain ⟨a, old⟩ := mem_succeeded.1 (made j List.mem_cons_self)
    rw [List.cons_append, itemsAt_cons create (h.get_made create old)]
    exact ih h.measured (fun j mem => made j (List.mem_cons_of_mem _ mem)) missing
  | nil =>
    have got := h.get_missing create (inside i List.mem_cons_self) missing
    have next := h.called create (inside i List.mem_cons_self) missing
    rw [List.nil_append, ← called_attempts]
    cases result : ((create i).run s.memory).1 with
    | error e =>
      rw [result] at got
      rw [itemsAt_stuck create got]
    | ok a =>
      rw [result] at got
      rw [itemsAt_cons create got]
      exact (next.itemsAt create post fun j mem => inside j (List.mem_cons_of_mem i mem)).2.grows

/-! ## Requests -/

theorem answer_get : s.answer create (.get i) =
    ((place.get (attempt create) i).run s).1.map .item := by
  rw [answer, ask, run_map]

theorem next_get : s.next create (.get i) = ((place.get (attempt create) i).run s).2 := by
  rw [next, ask, run_map]

theorem answer_last : s.answer create .last =
    ((place.last (attempt create)).run s).1.map .item := by
  rw [answer, ask, run_map]

theorem next_last : s.next create .last = ((place.last (attempt create)).run s).2 := by
  rw [next, ask, run_map]

theorem Stocked.gather_run (h : Stocked n s) : (place.gather (attempt create)).run s =
    (place.itemsAt (attempt create) (List.range n)).run s.measured := by
  rw [Place.gather_run, (keeps_stocked create n).length_eq h, show (place.view s).size = n from h.size]
  rfl

/-- Asking for all items is gathering them, and then they are remembered. -/
theorem Stocked.items_run (h : Stocked n s) : (ask create .items).run s =
    match (place.itemsAt (attempt create) (List.range n)).run s.measured with
    | (.ok all, t) => (.ok (.items all), { t with list := t.list.settle all })
    | (.error e, t) => (.error e, t) := by
  rw [ask, run_map, (keeps_stocked create n).items_eq h, h.gather_run]
  rcases (place.itemsAt (attempt create) (List.range n)).run s.measured with ⟨_ | all, t⟩ <;> rfl

theorem Stocked.attempts_items (h : Stocked n s) : (s.next create .items).attempts =
    ((place.itemsAt (attempt create) (List.range n)).run s.measured).2.attempts := by
  rw [next, h.items_run]
  rcases (place.itemsAt (attempt create) (List.range n)).run s.measured with ⟨_ | all, t⟩ <;> rfl

theorem Stocked.yields (h : Stocked n s) : Stocked n (s.next create .items) ∧
    ∃ r, s.answer create .items = r.map .items ∧
      Yields (List.range n) s.attempts r (s.next create .items).attempts := by
  obtain ⟨stocked, yields⟩ :=
    h.measured.itemsAt create (List.range n) fun i mem => List.mem_range.1 mem
  rw [h.attempts_items]
  refine ⟨?_, _, ?_, yields⟩
  · have gathered := h.gather_run create
    rw [next, h.items_run]
    rcases run : (place.itemsAt (attempt create) (List.range n)).run s.measured with ⟨e | all, t⟩ <;>
      rw [run] at stocked gathered
    · exact stocked
    · have sound := (keeps_stocked create n).sound_settle h gathered
      exact ⟨sound, stocked.size, stocked.slot, stocked.inside, stocked.once⟩
  · rw [answer, h.items_run]
    rcases (place.itemsAt (attempt create) (List.range n)).run s.measured with ⟨_ | all, t⟩ <;> rfl

theorem Stocked.next (h : Stocked n s) (q : Request) :
    Stocked n (s.next create q) ∧ s.attempts <+: (s.next create q).attempts := by
  cases q with
  | get i =>
    rw [next_get]
    exact ⟨(h.get create i).1, (h.get create i).2.2⟩
  | items =>
    obtain ⟨stocked, r, -, yields⟩ := h.yields create
    exact ⟨stocked, yields.grows⟩
  | last =>
    rw [next_last]
    cases n with
    | zero =>
      rw [h.last_empty]
      exact ⟨h.measured, List.prefix_refl _⟩
    | succ n =>
      rw [h.last_run]
      exact ⟨(h.get create n).1, (h.get create n).2.2⟩
  | length => exact ⟨h.measured, List.prefix_refl _⟩
  | created => exact ⟨h, List.prefix_refl _⟩

theorem Stocked.after (h : Stocked n s) (qs : List Request) :
    Stocked n (s.after create qs) ∧ s.attempts <+: (s.after create qs).attempts := by
  induction qs generalizing s with
  | nil => exact ⟨h, List.prefix_refl _⟩
  | cons q qs ih =>
    obtain ⟨stocked, grows⟩ := h.next create q
    obtain ⟨stocked', grows'⟩ := ih stocked
    exact ⟨stocked', grows.trans grows'⟩

variable {all : List α} {e : ε}

theorem Stocked.collects (h : Stocked n s) (ok : s.answer create .items = .ok (.items all)) :
    Collects (List.range n) all s.attempts (s.next create .items).attempts := by
  obtain ⟨-, r, answer, yields⟩ := h.yields create
  rw [answer] at ok
  cases r with
  | error e => cases ok
  | ok items =>
    cases ok
    exact yields.collects

/-- Where it fails, the items before are there and the creator was not called for those after. -/
theorem Stocked.stuck (h : Stocked n s) (failed : s.answer create .items = .error e) :
    ∃ i all log, i < n ∧ Collects (List.range i) all s.attempts log ∧ i ∉ succeeded log ∧
      (s.next create .items).attempts = log ++ [⟨i, .error e⟩] := by
  obtain ⟨-, r, answer, yields⟩ := h.yields create
  rw [answer] at failed
  cases r with
  | ok items => cases failed
  | error e =>
    cases failed
    exact yields.stuck_at

/-! ## Promises -/

/-- The whole list holds at each place the item that was made for it. -/
theorem Stocked.getElem?_items (h : Stocked n s)
    (items : List.Forall₂ (fun i a => ⟨i, .ok a⟩ ∈ s.attempts) (List.range n) all) :
    all[i]? = some a ↔ ⟨i, .ok a⟩ ∈ s.attempts := by
  have length : all.length = n := by rw [← items.length_eq, List.length_range]
  have here (i : Nat) (inside : i < all.length) : ⟨i, .ok all[i]⟩ ∈ s.attempts := by
    have item := (List.forall₂_iff_get.1 items).2 i (by simpa [← length] using inside) inside
    simpa using item
  constructor
  · intro item
    obtain ⟨inside, rfl⟩ := List.getElem?_eq_some_iff.1 item
    exact here i inside
  · intro made
    have inside : i < all.length := length ▸ h.inside _ made
    have slot := (h.slot i _).2 (here i inside)
    rw [(h.slot i a).2 made] at slot
    rw [List.getElem?_eq_getElem inside, slot]

theorem Stocked.shows (h : Stocked n s) (made : ⟨i, .ok a⟩ ∈ s.attempts) :
    s.Shows create n i a := by
  intro later
  obtain ⟨stocked, grows⟩ := h.after create later
  have made := grows.subset made
  refine ⟨?_, ?_, ?_⟩
  · rw [answer_get, stocked.get_made create made]
    rfl
  · rintro rfl
    rw [answer_last, stocked.last_run, stocked.get_made create made]
    rfl
  · intro all ok
    obtain ⟨stocked', grows'⟩ := stocked.next create .items
    exact (stocked'.getElem?_items (stocked.collects create ok).items).2 (grows'.subset made)

/-- An item that is answered was made by then. -/
theorem Stocked.made_of_get (h : Stocked n s)
    (found : s.answer create (.get i) = .ok (.item (some a))) :
    ⟨i, .ok a⟩ ∈ (s.next create (.get i)).attempts := by
  rw [answer_get] at found
  rw [next_get]
  rcases Nat.lt_or_ge i n with inside | outside
  · by_cases made : i ∈ succeeded s.attempts
    · obtain ⟨b, made⟩ := mem_succeeded.1 made
      rw [h.get_made create made] at found ⊢
      cases found
      exact made
    · rw [h.get_missing create inside made] at found ⊢
      rw [called_attempts]
      cases result : ((create i).run s.memory).1 with
      | error e =>
        rw [result] at found
        cases found
      | ok b =>
        rw [result] at found
        cases found
        exact List.mem_append_right _ (List.mem_singleton_self _)
  · rw [h.get_outside create outside] at found
    cases found

/-- Once the full list is there, no request changes anything. -/
theorem Stocked.next_whole (h : Stocked n s) (whole : s.list.all = some all) (q : Request) :
    s.next create q = s := by
  have measured : s.measured = s := by
    rw [Supply.measured, h.sound.measure_eq whole]
  have got : ∀ i, ((place.get (attempt create) i).run s).2 = s := by
    intro i
    rcases Nat.lt_or_ge i n with inside | outside
    · have there : i < all.length := by
        rw [(h.sound.all all whole).2.2, h.size]
        exact inside
      have made : ⟨i, .ok all[i]⟩ ∈ s.attempts := by
        rw [← h.slot, h.sound.slot?_of_all whole, List.getElem?_eq_getElem there]
      rw [h.get_made create made]
      exact measured
    · rw [h.get_outside create outside]
      exact measured
  cases q with
  | get i => exact (next_get create).trans (got i)
  | items =>
    rw [Supply.next, ask, run_map, Place.items_run, show (place.view s).all = some all from whole]
  | last =>
    rw [next_last]
    cases n with
    | zero =>
      rw [h.last_empty]
      exact measured
    | succ n =>
      rw [h.last_run]
      exact got n
  | length => exact measured
  | created => rfl

theorem Stocked.after_whole (h : Stocked n s) (whole : s.list.all = some all) (qs : List Request) :
    s.after create qs = s := by
  induction qs with
  | nil => rfl
  | cons q qs ih =>
    change (s.next create q).after create qs = s
    rw [h.next_whole create whole]
    exact ih

theorem answer_whole (whole : s.list.all = some all) :
    s.answer create .items = .ok (.items all) := by
  rw [answer, ask, run_map, Place.items_run, show (place.view s).all = some all from whole]
  rfl

/-- All items that were answered are remembered as the full list. -/
theorem Stocked.all_items (h : Stocked n s) (ok : s.answer create .items = .ok (.items all)) :
    (s.next create .items).list.all = some all := by
  have gathered := h.gather_run create
  rw [answer, h.items_run] at ok
  rw [Supply.next, h.items_run]
  rcases run : (place.itemsAt (attempt create) (List.range n)).run s.measured with ⟨e | all', t⟩ <;>
    rw [run] at ok gathered
  · cases ok
  · cases ok
    have sound := ((keeps_stocked create n).gather h).1.sound
    rw [gathered] at sound
    exact sound.all_settle ((keeps_stocked create n).gather_slots h gathered).2.1

/-- Asking for all items again goes on with the first one that is missing. -/
theorem Stocked.resumes (h : Stocked n s) (inside : i < n)
    (made : ∀ j < i, j ∈ succeeded s.attempts) (missing : i ∉ succeeded s.attempts) :
    s.attempts ++ [⟨i, ((create i).run s.memory).1⟩] <+: (s.next create .items).attempts := by
  obtain ⟨before, later, range⟩ := List.append_of_mem (List.mem_range.2 inside)
  obtain ⟨rfl, -⟩ := range_split range
  have within : ∀ j ∈ i :: later, j < n := by
    intro j mem
    rw [← List.mem_range, range]
    exact List.mem_append_right _ mem
  have made : ∀ j ∈ List.range i, j ∈ succeeded s.measured.attempts :=
    fun j mem => made j (List.mem_range.1 mem)
  rw [h.attempts_items, range]
  exact h.measured.itemsAt_resumes create made within missing

/-- Whatever has been asked of a list, and whatever its creator answers from call to call: the
length, the slots and the full list agree with each other, and the creator is called inside the list
only, and never again for an index that it succeeded on. An item that was made stays, as does one
that was answered. All items are answered in order, after one call for each that was missing; they are
remembered as the full list, and from then on they are answered again and again and nothing changes.
Where they fail, the items before stay, the creator is not called for any after, and the next attempt
goes on there. Asking for the last item is asking for it by its index. The items counted as made are
the distinct indexes that succeeded. -/
theorem items_made_once_and_kept (n : Nat) (create : Nat → ExceptT ε (StateM τ) α) (memory : τ)
    (before : List Request) :
    let s : Supply ε α τ := (fresh n memory).after create before
    s.list.Sound ∧
    ((∀ x ∈ s.attempts, x.index < n) ∧
      s.attempts.Pairwise fun x y => x.index = y.index → ∃ e, x.result = .error e) ∧
    (∀ i,
      (n ≤ i → s.answer create (.get i) = .ok (.item none)) ∧
      (i < n → i ∉ succeeded s.attempts →
        s.answer create (.get i) = ((create i).run s.memory).1.map (fun a => .item (some a)) ∧
        (s.next create (.get i)).attempts = s.attempts ++ [⟨i, ((create i).run s.memory).1⟩]) ∧
      (∀ a, s.answer create (.get i) = .ok (.item (some a)) →
        (s.next create (.get i)).Shows create n i a) ∧
      ∀ a, ⟨i, .ok a⟩ ∈ s.attempts → s.Shows create n i a) ∧
    (∀ all, s.answer create .items = .ok (.items all) →
      let t := s.next create .items
      all.length = n ∧ (∀ i a, all[i]? = some a → t.Shows create n i a) ∧
      (∃ made, t.attempts = s.attempts ++ successes made ∧
        made.map Prod.fst = (List.range n).filter (· ∉ succeeded s.attempts)) ∧
      t.list.all = some all ∧
      ∀ later, (t.after create later).answer create .items = .ok (.items all) ∧
        t.after create later = t) ∧
    (∀ e, s.answer create .items = .error e →
      let t := s.next create .items
      ∃ i < n,
        (∃ made, t.attempts = s.attempts ++ successes made ++ [⟨i, .error e⟩] ∧
          made.map Prod.fst = (List.range i).filter (· ∉ succeeded s.attempts)) ∧
        (∀ j < i, ∃ a, ⟨j, .ok a⟩ ∈ t.attempts ∧ t.Shows create n j a) ∧
        i ∉ succeeded t.attempts ∧
        ∀ later, let u := t.after create later
          i ∉ succeeded u.attempts →
            u.attempts ++ [⟨i, ((create i).run u.memory).1⟩] <+: (u.next create .items).attempts) ∧
    (n = 0 → s.answer create .last = .ok (.item none)) ∧
    (∀ i, n = i + 1 → (ask create .last).run s = (ask create (.get i)).run s) ∧
    s.answer create .length = .ok (.number n) ∧
    s.answer create .created = .ok (.number (succeeded s.attempts).card) := by
  intro s
  have stocked : Stocked n s := ((stocked_fresh n memory).after create before).1
  refine ⟨stocked.sound, ⟨stocked.inside, stocked.once⟩, ?get, ?all, ?stuck, ?none, ?last,
    ?length, ?created⟩
  case get =>
    intro i
    refine ⟨?_, ?_, ?_, fun a made => stocked.shows create made⟩
    · intro outside
      rw [answer_get, stocked.get_outside create outside]
      rfl
    · intro inside missing
      rw [answer_get, next_get, stocked.get_missing create inside missing, called_attempts]
      refine ⟨?_, rfl⟩
      cases ((create i).run s.memory).1 <;> rfl
    · intro a found
      exact (stocked.next create _).1.shows create (stocked.made_of_get create found)
  case all =>
    intro all ok t
    have collects := stocked.collects create ok
    have next : Stocked n t := (stocked.next create .items).1
    have whole : t.list.all = some all := stocked.all_items create ok
    refine ⟨?_, ?_, collects.log_eq List.nodup_range, whole, fun later => ?_⟩
    · rw [← collects.items.length_eq, List.length_range]
    · intro i a item
      exact next.shows create ((next.getElem?_items collects.items).1 item)
    · rw [next.after_whole create whole]
      exact ⟨answer_whole create whole, rfl⟩
  case stuck =>
    intro e failed t
    obtain ⟨i, all, log, inside, collects, missing, attempts⟩ := stocked.stuck create failed
    have next : Stocked n t := (stocked.next create .items).1
    have before : ∀ j < i, ∃ a, ⟨j, .ok a⟩ ∈ t.attempts := by
      intro j lt
      obtain ⟨a, made⟩ := mem_succeeded.1 (collects.mem_succeeded (List.mem_range.2 lt))
      exact ⟨a, attempts ▸ List.mem_append_left _ made⟩
    refine ⟨i, inside, ?_, ?_, ?_, ?_⟩
    · obtain ⟨made, rfl, indexes⟩ := collects.log_eq List.nodup_range
      exact ⟨made, attempts, indexes⟩
    · intro j lt
      obtain ⟨a, made⟩ := before j lt
      exact ⟨a, made, next.shows create made⟩
    · rw [attempts, succeeded_failure]
      exact missing
    · intro later u still
      obtain ⟨after, grows⟩ := next.after create later
      refine after.resumes create inside ?_ still
      intro j lt
      obtain ⟨a, made⟩ := before j lt
      exact mem_succeeded.2 ⟨a, grows.subset made⟩
  case none =>
    rintro rfl
    rw [answer_last, stocked.last_empty]
    rfl
  case last =>
    rintro i rfl
    rw [ask, ask, run_map, run_map, stocked.last_run]
  case length =>
    exact congrArg (fun n => Except.ok (Answer.number n)) stocked.length
  case created =>
    exact congrArg (fun n => Except.ok (Answer.number n)) stocked.created

/-- The creator fails at its third call only, which is for the second of three items. -/
theorem items_made_once_and_kept_sample :
    let create : Nat → ExceptT String (StateM Nat) Nat := fun i => do
      let calls ← get
      set (calls + 1)
      if calls = 2 then throw "busy" else return 10 * calls + i
    let s : Supply String Nat Nat := (fresh 3 0).after create [.get 2]
    let t := s.next create .items
    let u := t.next create .items
    s.answer create (.get 2) = .ok (.item (some 2)) ∧
    (s.next create (.get 2)).Shows create 3 2 2 ∧
    s.answer create .items = .error "busy" ∧
    (∃ i < 3, ∀ j < i, ∃ a, ⟨j, .ok a⟩ ∈ t.attempts ∧ t.Shows create 3 j a) ∧
    t.answer create .items = .ok (.items [10, 31, 2]) ∧
    ∀ later, (u.after create later).answer create .items = .ok (.items [10, 31, 2]) ∧
      u.after create later = u := by
  intro create s t u
  have found : s.answer create (.get 2) = .ok (.item (some 2)) := rfl
  have failed : s.answer create .items = .error "busy" := rfl
  have ok : t.answer create .items = .ok (.items [10, 31, 2]) := rfl
  obtain ⟨-, -, get, -, stuck, -⟩ := items_made_once_and_kept 3 create 0 [.get 2]
  obtain ⟨i, inside, -, before, -⟩ := stuck "busy" failed
  obtain ⟨-, -, -, all, -⟩ := items_made_once_and_kept 3 create 0 [.get 2, .items]
  exact ⟨found, (get 2).2.2.1 2 found, failed, ⟨i, inside, before⟩, ok,
    (all [10, 31, 2] ok).2.2.2.2⟩

end Supply

end RunReport
