/-!
# Lazy lists

A list of known length whose items are made one by one when first asked for. An item is made once:
later requests, also for the whole list, give the one that was made. A failed attempt leaves its
place empty, so it is tried again the next time. Three things are remembered: the length once it has
been asked for, the items made so far, and the whole list once all of it has been asked for.

The list lives at a place inside a larger state, because making an item may change that state.
-/

namespace RunReport

structure LazyList (α : Type) where
  /-- What counting the items gives. -/
  size : Nat
  /-- The length, once it has been asked for. -/
  count : Option Nat
  /-- The items made so far; there are no slots before the first item is made. -/
  slots : List (Option α)
  /-- All items, once they have been asked for. -/
  all : Option (List α)

namespace LazyList

variable {α : Type}

def ofLength (n : Nat) : LazyList α :=
  ⟨n, none, [], none⟩

def length (l : LazyList α) : Nat :=
  l.count.getD l.size

def measure (l : LazyList α) : LazyList α :=
  { l with count := some l.length }

def slot? (l : LazyList α) (i : Nat) : Option α :=
  l.slots[i]?.join

/-- A slot for each item. -/
def grown (l : LazyList α) : List (Option α) :=
  l.slots ++ List.replicate (l.length - l.slots.length) none

/-- Puts an item into an empty slot; a filled one keeps its item. -/
def fill (l : LazyList α) (i : Nat) (a : α) : LazyList α :=
  { l with slots := l.grown.modify i fun s => some (s.getD a) }

/-- Remembers all items; those that are remembered stay. -/
def settle (l : LazyList α) (items : List α) : LazyList α :=
  { l with all := some (l.all.getD items) }

/-- Number of items made so far. -/
def created (l : LazyList α) : Nat :=
  l.slots.countP (·.isSome)

end LazyList

/-- Where a list of `α` lives in a `σ`. -/
structure Place (σ α : Type) where
  view : σ → LazyList α
  update : (LazyList α → LazyList α) → σ → σ

namespace Place

variable {σ α ε : Type}

def length (p : Place σ α) : ExceptT ε (StateM σ) Nat := do
  modify (p.update (·.measure))
  return (p.view (← MonadState.get)).length

/-- The item at `i`, made by `create` if it is not there yet. -/
def get (p : Place σ α) (create : Nat → ExceptT ε (StateM σ) α) (i : Nat) :
    ExceptT ε (StateM σ) (Option α) := do
  if i < (← p.length) then
    match (p.view (← MonadState.get)).slot? i with
    | some a => return some a
    | none =>
      let a ← create i
      modify (p.update (·.fill i a))
      return (p.view (← MonadState.get)).slot? i
  else return none

def itemsAt (p : Place σ α) (create : Nat → ExceptT ε (StateM σ) α) :
    List Nat → ExceptT ε (StateM σ) (List α)
  | [] => return []
  | i :: is => do
    let item ← p.get create i
    let rest ← p.itemsAt create is
    return item.toList ++ rest

/-- All items in order, gathered from the first to the last. -/
def gather (p : Place σ α) (create : Nat → ExceptT ε (StateM σ) α) :
    ExceptT ε (StateM σ) (List α) := do
  p.itemsAt create (List.range (← p.length))

/-- All items in order: those that are remembered, or else they are gathered and remembered. -/
def items (p : Place σ α) (create : Nat → ExceptT ε (StateM σ) α) :
    ExceptT ε (StateM σ) (List α) := do
  match (p.view (← MonadState.get)).all with
  | some all => return all
  | none =>
    let items ← p.gather create
    modify (p.update (·.settle items))
    return (p.view (← MonadState.get)).all.getD items

def last (p : Place σ α) (create : Nat → ExceptT ε (StateM σ) α) :
    ExceptT ε (StateM σ) (Option α) := do
  match ← p.length with
  | 0 => return none
  | n + 1 => p.get create n

end Place

end RunReport
