import RunReport.LazyList
import RunReport.Proofs.Effects
/-!
# The cells of a lazy list

The length, the slots and the full list are remembered apart, and each is filled by several
requests. What links them is an invariant: the full list is there only when every slot holds its
item and the length is known. Each request keeps it, forgets nothing, and for a list that has been
gathered once answers as gathering it again would.
-/

namespace RunReport

open Effects

variable {σ α ε : Type}

namespace LazyList

variable {l l' l'' : LazyList α} {i j : Nat} {a : α} {items : List α}

/-! ## Slots -/

theorem slot?_ofLength (n i : Nat) : (ofLength n : LazyList α).slot? i = none := rfl

theorem slot?_within (h : l.slot? i = some a) : i < l.slots.length := by
  rcases Nat.lt_or_ge i l.slots.length with here | beyond
  · exact here
  · rw [slot?, List.getElem?_eq_none beyond] at h
    cases h

theorem slot?_measure (l : LazyList α) (i : Nat) : l.measure.slot? i = l.slot? i := rfl

theorem slot?_settle (l : LazyList α) (items : List α) (i : Nat) :
    (l.settle items).slot? i = l.slot? i := rfl

theorem length_fill (l : LazyList α) (i : Nat) (a : α) : (l.fill i a).length = l.length := rfl

/-- The slots that are added are empty. -/
theorem grown_join (l : LazyList α) (i : Nat) : l.grown[i]?.join = l.slot? i := by
  rw [grown, slot?]
  rcases Nat.lt_or_ge i l.slots.length with here | beyond
  · rw [List.getElem?_append_left here]
  · rw [List.getElem?_append_right beyond, List.getElem?_eq_none beyond, List.getElem?_replicate]
    split <;> rfl

theorem length_grown (l : LazyList α) : l.grown.length = max l.slots.length l.length := by
  rw [grown, List.length_append, List.length_replicate]
  omega

theorem slot?_fill_other (l : LazyList α) (a : α) (h : j ≠ i) : (l.fill i a).slot? j = l.slot? j := by
  rw [← l.grown_join j]
  simp [slot?, fill, Ne.symm h]

/-- After an item is put into a slot there is one in it. -/
theorem slot?_fill_same (a : α) (inside : i < l.length) :
    (l.fill i a).slot? i = some ((l.slot? i).getD a) := by
  have there : i < l.grown.length := by
    rw [length_grown]
    omega
  rw [← l.grown_join i, List.getElem?_eq_getElem there]
  simp [slot?, fill, List.getElem?_eq_getElem there]

theorem slot?_fill_empty (a : α) (inside : i < l.length) (empty : l.slot? i = none) :
    (l.fill i a).slot? i = some a := by
  rw [slot?_fill_same a inside, empty]
  rfl

theorem slot?_fill_keeps (i : Nat) (a : α) {b : α} (h : l.slot? j = some b) :
    (l.fill i a).slot? j = some b := by
  by_cases hj : j = i
  · subst hj
    have slot : l.grown[j]? = some (some b) := by
      have join := l.grown_join j
      rw [h] at join
      cases hs : l.grown[j]? with
      | none => simp [hs] at join
      | some o => simpa [hs] using join
    simp [slot?, fill, slot]
  · rw [slot?_fill_other l a hj]
    exact h

/-! ## What links the cells -/

structure Sound (l : LazyList α) : Prop where
  count : ∀ n, l.count = some n → n = l.size
  slots : l.slots.length ≤ l.size
  /-- The full list is what is in the slots, all of which are filled. -/
  all : ∀ items, l.all = some items →
    l.count = some l.size ∧ l.slots = items.map some ∧ items.length = l.size

theorem sound_ofLength (n : Nat) : (ofLength n : LazyList α).Sound :=
  ⟨nofun, Nat.zero_le n, nofun⟩

theorem Sound.length (h : l.Sound) : l.length = l.size := by
  rw [LazyList.length]
  cases hc : l.count with
  | none => rfl
  | some n => exact h.count n hc

theorem Sound.inside (h : l.Sound) (hi : l.slot? i = some a) : i < l.size :=
  Nat.lt_of_lt_of_le (slot?_within hi) h.slots

theorem Sound.slot?_of_all (h : l.Sound) (all : l.all = some items) (i : Nat) :
    l.slot? i = items[i]? := by
  obtain ⟨-, slots, -⟩ := h.all items all
  rw [slot?, slots, List.getElem?_map]
  cases items[i]? <;> rfl

theorem Sound.measure (h : l.Sound) : l.measure.Sound where
  count n hn := by
    cases hn
    exact h.length
  slots := h.slots
  all items all := ⟨congrArg some h.length, (h.all items all).2⟩

/-- Once the full list is there, its length is known. -/
theorem Sound.measure_eq (h : l.Sound) (all : l.all = some items) : l.measure = l := by
  obtain ⟨known, -⟩ := h.all items all
  rw [LazyList.measure, h.length, ← known]

theorem modify_map_some (items : List α) (i : Nat) (a : α) :
    (items.map some).modify i (fun s => some (s.getD a)) = items.map some := by
  refine List.ext_getElem? fun j => ?_
  rw [List.getElem?_modify, List.getElem?_map]
  split <;> cases items[j]? <;> rfl

theorem Sound.fill (h : l.Sound) (i : Nat) (a : α) : (l.fill i a).Sound where
  count := h.count
  slots := by
    have grown := l.length_grown
    have slots := h.slots
    rw [h.length] at grown
    simp only [LazyList.fill, List.length_modify]
    omega
  all items all := by
    obtain ⟨known, slots, whole⟩ := h.all items all
    refine ⟨known, ?_, whole⟩
    have full : l.grown = items.map some := by
      rw [grown, slots, h.length, List.length_map, whole, Nat.sub_self]
      exact List.append_nil _
    simp only [LazyList.fill, full, modify_map_some]

/-- A list is remembered as a whole when its length is known and all of it is in the slots. -/
theorem Sound.settle (h : l.Sound) (known : l.count.isSome) (slots : l.slots = items.map some)
    (whole : items.length = l.size) : (l.settle items).Sound where
  count := h.count
  slots := h.slots
  all items' all := by
    obtain ⟨n, hn⟩ := Option.isSome_iff_exists.1 known
    cases hl : l.all with
    | some old =>
      simp only [LazyList.settle, hl, Option.getD_some, Option.some.injEq] at all
      exact all ▸ h.all old hl
    | none =>
      simp only [LazyList.settle, hl, Option.getD_none, Option.some.injEq] at all
      subst all
      exact ⟨hn.trans (congrArg some (h.count n hn)), slots, whole⟩

theorem settle_eq (all : l.all = some items) (items' : List α) : l.settle items' = l := by
  obtain ⟨size, count, slots, all'⟩ := l
  subst all
  rfl

/-- The full list is the one in the slots, whether it was there before or not. -/
theorem Sound.all_settle (h : l.Sound) (slots : l.slots = items.map some) :
    (l.settle items).all = some items := by
  rw [LazyList.settle]
  cases all : l.all with
  | none => rfl
  | some old =>
    obtain ⟨-, slots', -⟩ := h.all old all
    have same : old = items := by
      have same := slots'.symm.trans slots
      exact (List.map_inj_right fun _ _ => Option.some.inj).1 same
    rw [Option.getD_some, same]

/-- The same list later on: nothing that it remembers is forgotten. -/
structure Grows (l l' : LazyList α) : Prop where
  size : l'.size = l.size
  count : ∀ n, l.count = some n → l'.count = some n
  slots : ∀ i a, l.slot? i = some a → l'.slot? i = some a
  all : ∀ items, l.all = some items → l'.all = some items

theorem Grows.refl (l : LazyList α) : l.Grows l :=
  ⟨rfl, fun _ => id, fun _ _ => id, fun _ => id⟩

theorem Grows.trans (h : l.Grows l') (h' : l'.Grows l'') : l.Grows l'' :=
  ⟨h'.size.trans h.size, fun n hn => h'.count n (h.count n hn),
    fun i a hi => h'.slots i a (h.slots i a hi), fun items all => h'.all items (h.all items all)⟩

theorem Grows.known (h : l.Grows l') (known : l.count.isSome) : l'.count.isSome := by
  obtain ⟨n, hn⟩ := Option.isSome_iff_exists.1 known
  rw [h.count n hn]
  rfl

theorem grows_measure (l : LazyList α) : l.Grows l.measure := by
  refine ⟨rfl, fun n hn => ?_, fun _ _ => id, fun _ => id⟩
  rw [LazyList.measure, LazyList.length, hn]
  rfl

theorem grows_fill (l : LazyList α) (i : Nat) (a : α) : l.Grows (l.fill i a) :=
  ⟨rfl, fun _ => id, fun _ _ => slot?_fill_keeps i a, fun _ => id⟩

theorem grows_settle (l : LazyList α) (items : List α) : l.Grows (l.settle items) := by
  refine ⟨rfl, fun _ => id, fun _ _ => id, fun old all => ?_⟩
  rw [settle_eq all]
  exact all

end LazyList

/-! ## Requests -/

namespace Place

variable (p : Place σ α) (create : Nat → ExceptT ε (StateM σ) α)

theorem length_run (s : σ) : (p.length : ExceptT ε (StateM σ) Nat).run s =
    (.ok (p.view (p.update (·.measure) s)).length, p.update (·.measure) s) := rfl

/-- An item is made only if its slot is empty, and then the slot is filled. -/
theorem get_run (i : Nat) (s : σ) :
    (p.get create i).run s =
      if i < (p.view (p.update (·.measure) s)).length then
        match (p.view (p.update (·.measure) s)).slot? i with
        | some a => (.ok (some a), p.update (·.measure) s)
        | none =>
          match (create i).run (p.update (·.measure) s) with
          | (.ok a, t) => (.ok ((p.view (p.update (·.fill i a) t)).slot? i), p.update (·.fill i a) t)
          | (.error e, t) => (.error e, t)
      else (.ok none, p.update (·.measure) s) := by
  simp only [Place.get, run_bind, length_run]
  generalize p.update (·.measure) s = t
  split
  · simp only [run_bind, run_get]
    cases (p.view t).slot? i with
    | some a => rfl
    | none =>
      simp only [run_bind]
      rcases (create i).run t with ⟨_ | a, u⟩ <;> rfl
  · rfl

theorem last_run (s : σ) :
    (p.last create).run s =
      match (p.view (p.update (·.measure) s)).length with
      | 0 => (.ok none, p.update (·.measure) s)
      | n + 1 => (p.get create n).run (p.update (·.measure) s) := by
  simp only [Place.last, run_bind, length_run]
  generalize p.update (·.measure) s = t
  cases (p.view t).length <;> rfl

theorem gather_run (s : σ) : (p.gather create).run s =
    (p.itemsAt create (List.range (p.view (p.update (·.measure) s)).length)).run
      (p.update (·.measure) s) := by
  rw [Place.gather, run_bind_ok (length_run p s)]

theorem items_run (s : σ) :
    (p.items create).run s =
      match (p.view s).all with
      | some all => (.ok all, s)
      | none =>
        match (p.gather create).run s with
        | (.ok items, t) =>
          (.ok ((p.view (p.update (·.settle items) t)).all.getD items), p.update (·.settle items) t)
        | (.error e, t) => (.error e, t) := by
  simp only [Place.items, run_bind, run_get]
  cases (p.view s).all with
  | some all => rfl
  | none =>
    simp only [run_bind]
    rcases (p.gather create).run s with ⟨_ | items, t⟩ <;> rfl

/-- States that have a list at the place, and whose lists a request changes as it says. -/
structure Keeps (I : σ → Prop) : Prop where
  sound : ∀ s, I s → (p.view s).Sound
  /-- What is changed is what is seen. -/
  view : ∀ f s, I s ∨ I (p.update f s) → p.view (p.update f s) = f (p.view s)
  /-- Changing nothing changes nothing. -/
  same : ∀ f s, I s → f (p.view s) = p.view s → p.update f s = s
  measure : ∀ s, I s → I (p.update (·.measure) s)
  get : ∀ i s, I s → I ((p.get create i).run s).2 ∧
    (p.view s).Grows (p.view ((p.get create i).run s).2)

variable {p create} {I : σ → Prop} {s t : σ} {i : Nat} {is : List Nat} {items : List α}

namespace Keeps

theorem length_eq (k : p.Keeps create I) (h : I s) :
    (p.view (p.update (·.measure) s)).length = (p.view s).size := by
  rw [k.view _ s (.inl h)]
  exact (k.sound s h).measure.length

/-- An item that is given is in its slot from then on. -/
theorem get_slot (k : p.Keeps create I) (h : I s) {item : Option α}
    (run : (p.get create i).run s = (.ok item, t)) (inside : i < (p.view s).size) :
    ∃ a, item = some a ∧ (p.view t).slot? i = some a := by
  have after := (k.get i s h).1
  rw [run] at after
  rw [get_run, k.length_eq h, if_pos inside] at run
  cases slot : (p.view (p.update (·.measure) s)).slot? i with
  | some a =>
    rw [slot] at run
    cases run
    exact ⟨a, rfl, slot⟩
  | none =>
    rw [slot] at run
    rcases made : (create i).run (p.update (·.measure) s) with ⟨e | a, u⟩
    · rw [made] at run
      cases run
    · rw [made] at run
      cases run
      have seen := k.view (·.fill i a) u (.inr after)
      have size : i < (p.view u).length := by
        have grows := (k.get i s h).2
        rw [get_run, k.length_eq h, if_pos inside, slot, made, seen] at grows
        have sound := k.sound _ after
        rw [seen] at sound
        have length := sound.length
        rw [LazyList.length_fill] at length
        rw [length, grows.size]
        exact inside
      rw [seen, LazyList.slot?_fill_same a size]
      exact ⟨_, rfl, rfl⟩

theorem itemsAt (k : p.Keeps create I) (h : I s) (is : List Nat) :
    I ((p.itemsAt create is).run s).2 ∧ (p.view s).Grows (p.view ((p.itemsAt create is).run s).2) := by
  induction is generalizing s with
  | nil => exact ⟨h, .refl _⟩
  | cons i is ih =>
    obtain ⟨h₁, grows⟩ := k.get i s h
    rcases first : (p.get create i).run s with ⟨e | item, u⟩ <;> rw [first] at h₁ grows
    · rw [Place.itemsAt, run_bind_error first]
      exact ⟨h₁, grows⟩
    · obtain ⟨h₂, grows'⟩ := ih h₁
      rw [Place.itemsAt, run_bind_ok first]
      rcases later : (p.itemsAt create is).run u with ⟨e | rest, v⟩ <;> rw [later] at h₂ grows'
      · rw [run_bind_error later]
        exact ⟨h₂, grows.trans grows'⟩
      · rw [run_bind_ok later]
        exact ⟨h₂, grows.trans grows'⟩

/-- Items that are given are in their slots from then on. -/
theorem itemsAt_slots (k : p.Keeps create I) (h : I s)
    (run : (p.itemsAt create is).run s = (.ok items, t))
    (inside : ∀ i ∈ is, i < (p.view s).size) : is.map (p.view t).slot? = items.map some := by
  induction is generalizing s items with
  | nil =>
    cases run
    rfl
  | cons i is ih =>
    obtain ⟨item, u, first, run⟩ := run_bind_eq_ok.1 run
    obtain ⟨rest, v, later, run⟩ := run_bind_eq_ok.1 run
    cases run
    have got := k.get i s h
    obtain ⟨a, rfl, slot⟩ := k.get_slot h first (inside i (by simp))
    rw [first] at got
    have went := k.itemsAt got.1 is
    rw [later] at went
    have others := ih got.1 later fun j hj => by
      rw [got.2.size]
      exact inside j (by simp [hj])
    rw [List.map_cons, others, went.2.slots i a slot]
    rfl

theorem gather (k : p.Keeps create I) (h : I s) :
    I ((p.gather create).run s).2 ∧ (p.view s).Grows (p.view ((p.gather create).run s).2) := by
  have grows : (p.view s).Grows (p.view (p.update (·.measure) s)) := by
    rw [k.view _ s (.inl h)]
    exact LazyList.grows_measure _
  obtain ⟨h', grows'⟩ := k.itemsAt (k.measure s h)
    (List.range (p.view (p.update (·.measure) s)).length)
  rw [gather_run]
  exact ⟨h', grows.trans grows'⟩

/-- Gathered items fill the list, and its length is known. -/
theorem gather_slots (k : p.Keeps create I) (h : I s) (run : (p.gather create).run s = (.ok items, t)) :
    (p.view t).count.isSome ∧ (p.view t).slots = items.map some ∧
      items.length = (p.view t).size := by
  have gathered := k.gather h
  rw [run] at gathered
  have size : (p.view t).size = (p.view s).size := gathered.2.size
  have sound : (p.view t).Sound := k.sound t gathered.1
  have measured : (p.view (p.update (·.measure) s)).count.isSome := by
    rw [k.view _ s (.inl h)]
    rfl
  rw [gather_run, k.length_eq h] at run
  have went := k.itemsAt (k.measure s h) (List.range (p.view s).size)
  rw [run] at went
  have slots := k.itemsAt_slots (k.measure s h) run fun i hi => by
    rw [k.view _ s (.inl h)]
    exact List.mem_range.1 hi
  have whole : items.length = (p.view t).size := by
    have length := congrArg List.length slots
    rw [List.length_map, List.length_map, List.length_range] at length
    rw [size, length]
  refine ⟨went.2.known measured, ?_, whole⟩
  refine List.ext_getElem? fun i => ?_
  rcases Nat.lt_or_ge i (p.view t).size with inside | beyond
  · have here : i < items.length := whole ▸ inside
    have slot := congrArg (·[i]?) slots
    simp only [List.getElem?_map, List.getElem?_range (size ▸ inside), Option.map_some,
      List.getElem?_eq_getElem here, LazyList.slot?, Option.some.injEq] at slot
    rw [List.getElem?_map, List.getElem?_eq_getElem here, Option.map_some]
    cases filled : (p.view t).slots[i]? with
    | none => simp [filled] at slot
    | some o => simpa [filled] using slot
  · rw [List.getElem?_eq_none (Nat.le_trans sound.slots beyond), List.getElem?_map,
      List.getElem?_eq_none (whole ▸ beyond)]
    rfl

/-- A list that is there as a whole is gathered from its slots, and nothing changes. -/
theorem gather_all (k : p.Keeps create I) (h : I s) (all : (p.view s).all = some items) :
    (p.gather create).run s = (.ok items, s) := by
  have sound := k.sound s h
  have measured : p.update (·.measure) s = s := k.same _ s h (sound.measure_eq all)
  have each : ∀ is xs, is.map (items[·]?) = xs.map some →
      (p.itemsAt create is).run s = (.ok xs, s) := by
    intro is
    induction is with
    | nil =>
      intro xs found
      rw [List.map_eq_nil_iff.1 found.symm]
      rfl
    | cons i is ih =>
      intro xs found
      obtain ⟨x, xs, rfl, here, later⟩ := List.map_eq_cons_iff.1 found.symm
      replace here : items[i]? = some x := here.symm
      have item : (p.get create i).run s = (.ok (some x), s) := by
        have inside : i < (p.view s).size := by
          rw [← (sound.all items all).2.2]
          exact (List.getElem?_eq_some_iff.1 here).1
        rw [get_run, k.length_eq h, if_pos inside, measured, sound.slot?_of_all all, here]
      rw [Place.itemsAt, run_bind_ok item, run_bind_ok (ih xs later.symm)]
      rfl
  rw [gather_run, k.length_eq h, measured, ← (sound.all items all).2.2]
  refine each _ items (List.ext_getElem (by simp) fun i here there => ?_)
  simp

/-- Asking for all items gives what gathering them gives, and what is given is remembered. -/
theorem items_eq (k : p.Keeps create I) (h : I s) : (p.items create).run s =
    match (p.gather create).run s with
    | (.ok items, t) => (.ok items, p.update (·.settle items) t)
    | (.error e, t) => (.error e, t) := by
  rw [items_run]
  cases all : (p.view s).all with
  | some items =>
    rw [k.gather_all h all]
    simp only [k.same (·.settle items) s h (LazyList.settle_eq all items)]
  | none =>
    rcases run : (p.gather create).run s with ⟨e | items, t⟩
    · rfl
    · have after := (k.gather h).1
      rw [run] at after
      obtain ⟨-, slots, -⟩ := k.gather_slots h run
      simp only [k.view _ t (.inl after), (k.sound t after).all_settle slots, Option.getD_some]

/-- What is remembered is sound. -/
theorem sound_settle (k : p.Keeps create I) (h : I s) (run : (p.gather create).run s = (.ok items, t)) :
    ((p.view t).settle items).Sound := by
  have after := (k.gather h).1
  rw [run] at after
  obtain ⟨known, slots, whole⟩ := k.gather_slots h run
  exact (k.sound t after).settle known slots whole

end Keeps

end Place

end RunReport
