import RunReport.Proofs.Searching
/-!
# What a walk over suites leaves alone

Whoever lists suites and tests fills the lists of suites and makes nodes, among them the last keywords
of suites. No test that is there changes, so what holds of a test holds of it after the walk.
-/

namespace RunReport.Session

open Effects

variable {s s' : Session} {owner : Route} {kind : NodeKind} {α β : Type}

/-- No node has changed but suites, which are suites still. -/
def Spares (s s' : Session) : Prop :=
  ∀ id n, s.node? id = some n →
    s'.node? id = some n ∨ ∃ su su', n = .suite su ∧ s'.node? id = some (.suite su')

instance : Course Spares where
  refl _ _ _ hn := .inl hn
  trans h h' id n hn := by
    rcases h id n hn with same | ⟨su, su', rfl, changed⟩
    · exact h' id n same
    · rcases h' id _ changed with same | ⟨_, su'', -, changed⟩
      · exact .inr ⟨su, su', rfl, same⟩
      · exact .inr ⟨su, su'', rfl, changed⟩

theorem test?_eq_some {id : NodeId} {test : Test} :
    s.test? id = some test ↔ s.node? id = some (.test test) := by
  rw [test?]
  split
  · rename_i found
    rw [found]
    simp
  · rename_i other
    constructor
    · intro h; cases h
    · intro h; exact absurd h (other test)

theorem Spares.test? (h : s.Spares s') {id : NodeId} {test : Test}
    (there : s.test? id = some test) : s'.test? id = some test := by
  rw [test?_eq_some] at there ⊢
  rcases h id _ there with same | ⟨su, su', suite, -⟩
  · exact same
  · cases suite

/-- The list is one that only suites have. -/
def OfSuite (s : Session) (owner : Route) (kind : NodeKind) : Prop :=
  kind = .suite ∨ kind = .test ∨ ∃ su, s.branch? owner = some (.suite su)

theorem OfSuite.along (h : s.OfSuite owner kind) (along : s.Spares s') :
    s'.OfSuite owner kind := by
  rcases h with suites | tests | ⟨su, hsu⟩
  · exact .inl suites
  · exact .inr (.inl tests)
  · rcases along _ _ hsu with same | ⟨-, su', -, changed⟩
    · exact .inr (.inr ⟨su, same⟩)
    · exact .inr (.inr ⟨su', changed⟩)

theorem spares_update (h : s.OfSuite owner kind) (f : LazyList NodeId → LazyList NodeId) :
    s.Spares ((made owner kind).update f s) := by
  intro id n hn
  rw [node?_update, hn]
  split
  · rename_i here
    subst here
    rcases h with rfl | rfl | ⟨su, hsu⟩
    · cases n <;> first | exact .inl rfl | exact .inr ⟨_, _, rfl, rfl⟩
    · cases n <;> first | exact .inl rfl | exact .inr ⟨_, _, rfl, rfl⟩
    · cases hn.symm.trans hsu
      cases kind <;> exact .inr ⟨_, _, rfl, rfl⟩
  · exact .inl rfl

/-- The computation changes no node but suites. -/
def Sparing (x : Run α) : Prop :=
  ∀ s : Session, s.Spares (x.run s).2

theorem sparing_pure (a : α) : Sparing (pure a : Run α) :=
  fun s => Course.refl s

theorem sparing_throw (e : Error) : Sparing (throw e : Run α) :=
  fun s => Course.refl s

theorem sparing_get : Sparing (get : Run Session) :=
  fun s => Course.refl s

theorem Spares.bind {x : Run α} {f : α → Run β} (hx : s.Spares (x.run s).2)
    (hf : ∀ a, Sparing (f a)) : s.Spares ((x >>= f).run s).2 := by
  rw [run_bind]
  rcases hrun : x.run s with ⟨_ | a, s'⟩ <;> rw [hrun] at hx
  · exact hx
  · exact Course.trans hx (hf a s')

theorem sparing_bind {x : Run α} {f : α → Run β} (hx : Sparing x) (hf : ∀ a, Sparing (f a)) :
    Sparing (x >>= f) :=
  fun s => (hx s).bind hf

theorem sparing_ite {c : Prop} [Decidable c] {x y : Run α} (hx : Sparing x) (hy : Sparing y) :
    Sparing (if c then x else y) := by
  split
  · exact hx
  · exact hy

theorem sparing_withTable (ref : TableRef) (x : Lookup α) : Sparing (withTable ref x) := by
  intro s id n hn
  have run : ((withTable ref x).run s).2 = s.setTable ref (x.run (s.tableOf ref)).2 := rfl
  obtain ⟨strings, splitStrings, eq⟩ := setTable_frame (s := s) ref (x.run (s.tableOf ref)).2
  rw [run, eq]
  exact .inl hn

theorem sparing_insert (id : NodeId) (n : Node) : Sparing (modify (insertNode id n) : Run Unit) := by
  intro s id' n' hn
  rw [run_modify, node?_insertNode, hn]
  exact .inl rfl

theorem sparing_checkOpen : Sparing checkOpen :=
  sparing_bind sparing_get fun _ => sparing_ite (sparing_throw _) (sparing_pure _)

theorem spares_get (h : s.OfSuite owner kind) {create : Nat → Run NodeId}
    (hc : ∀ i, Sparing (create i)) (i : Nat) :
    s.Spares (((made owner kind).get create i).run s).2 := by
  have measured := spares_update h (·.measure)
  rw [Place.get_run]
  generalize (made owner kind).update (·.measure) s = s₀ at measured ⊢
  split
  · split
    · exact measured
    · have made := hc i s₀
      rcases hrun : (create i).run s₀ with ⟨_ | a, s₁⟩ <;> rw [hrun] at made
      · exact Course.trans measured made
      · have along : s.Spares s₁ := Course.trans measured made
        exact Course.trans along (spares_update (h.along along) (·.fill i a))
  · exact measured

theorem sparing_createWith {decode : Route → Raw → TableRef → Nat → Run NodeId}
    (hd : ∀ owner raw table i, Sparing (decode owner raw table i)) (owner : Route)
    (kind : NodeKind) (i : Nat) : Sparing (createWith decode owner kind i) := by
  refine sparing_bind sparing_get fun s => ?_
  cases s.list? owner kind with
  | none => exact sparing_throw _
  | some l =>
    simp only
    cases l.items[i]? with
    | none => exact sparing_throw _
    | some raw => exact hd owner raw l.table i

theorem sparing_decodeKeyword (owner : Route) (raw : Raw) (table : TableRef) (i : Nat) :
    Sparing (decodeKeyword owner raw table i) := by
  refine sparing_bind sparing_checkOpen fun _ => sparing_bind sparing_get fun _ => ?_
  refine sparing_ite (sparing_pure _) (sparing_bind sparing_get fun _ => ?_)
  exact sparing_bind (sparing_withTable table _) fun _ =>
    sparing_bind (sparing_insert _ _) fun _ => sparing_pure _

/-- Only the last keyword of a suite is looked at. -/
theorem sparing_hasTeardownFailure (r : Route) : Sparing (hasTeardownFailure r) := by
  intro s
  have last : ∀ su, s.branch? r = some (.suite su) → s.Spares ((lastKeyword r).run s).2 := by
    intro su hsu
    have suite : s.OfSuite r .keyword := .inr (.inr ⟨su, hsu⟩)
    have measured := spares_update suite (·.measure)
    rw [lastKeyword, Place.last_run]
    split
    · exact measured
    · exact Course.trans measured (spares_get (suite.along measured)
        (sparing_createWith sparing_decodeKeyword r .keyword) _)
  have stays : s.Spares s := Course.refl s
  simp only [hasTeardownFailure, run_bind, run_get]
  rcases hn : s.branch? r with _ | (su | test | k | m)
  case some.suite =>
    simp only
    split
    · exact stays
    · refine (last su hn).bind fun found => ?_
      cases found with
      | some id => exact sparing_bind sparing_get fun _ => sparing_pure _
      | none => exact sparing_pure _
  all_goals exact stays

theorem sparing_decodeUnder (owner : Route) (id : NodeId) (table : TableRef)
    (read : Coding → Lookup α) (node : α → Bool → Option Node → Node) :
    Sparing (decodeUnder owner id table read node) := by
  refine sparing_bind sparing_checkOpen fun _ => sparing_bind sparing_get fun _ => ?_
  refine sparing_ite (sparing_pure _) (sparing_bind sparing_get fun _ => ?_)
  refine sparing_bind (sparing_withTable table _) fun _ => ?_
  refine sparing_bind (sparing_hasTeardownFailure owner) fun _ => ?_
  exact sparing_bind sparing_get fun _ => sparing_bind (sparing_insert _ _) fun _ => sparing_pure _

/-- Listing suites or tests changes no test. -/
theorem sparing_childList (suites : kind = .suite ∨ kind = .test) (r : Route) :
    Sparing (childList r kind) := by
  have own : ∀ s : Session, s.OfSuite r kind := fun s => suites.imp id .inl
  have decode : ∀ owner raw table i, Sparing (decodeChild kind owner raw table i) := by
    intro owner raw table i
    rcases suites with rfl | rfl
    · simp only [decodeChild, decodeSuite_eq]
      exact sparing_decodeUnder _ _ _ _ _
    · simp only [decodeChild, decodeTest_eq]
      exact sparing_decodeUnder _ _ _ _ _
  have items : ∀ is, Sparing ((made r kind).itemsAt (create r kind) is) := by
    intro is
    induction is with
    | nil => exact sparing_pure _
    | cons i is ih =>
      refine sparing_bind (fun s => spares_get (own s) (sparing_createWith decode r kind) i) fun _ => ?_
      exact sparing_bind ih fun _ => sparing_pure _
  have gather : Sparing ((made r kind).gather (create r kind)) :=
    sparing_bind (fun s => spares_update (own s) _) fun _ => items _
  refine sparing_bind sparing_get fun s => ?_
  cases ((made r kind).view s).all with
  | some all => exact sparing_pure _
  | none =>
    refine sparing_bind gather fun all => ?_
    refine sparing_bind (fun s => spares_update (own s) (·.settle all)) fun _ => ?_
    exact sparing_bind sparing_get fun _ => sparing_pure _

theorem sparing_flatMapRun {f : Route → Run (List α)} (hf : ∀ r, Sparing (f r)) (rs : List Route) :
    Sparing (flatMapRun f rs) := by
  induction rs with
  | nil => exact sparing_pure _
  | cons r rs ih => exact sparing_bind (hf r) fun _ => sparing_bind ih fun _ => sparing_pure _

theorem sparing_searchFrom (p : Test → Bool) (depth : Nat) (r : Route) :
    Sparing (searchFrom p depth r) := by
  induction depth generalizing r with
  | zero => exact sparing_pure _
  | succ depth ih =>
    refine sparing_bind (sparing_bind (sparing_childList (.inl rfl) r) fun _ => sparing_pure _)
      fun _ => sparing_bind (sparing_flatMapRun ih _) fun _ => ?_
    exact sparing_bind (sparing_childList (.inr rfl) r) fun _ =>
      sparing_bind sparing_get fun _ => sparing_pure _

end RunReport.Session
