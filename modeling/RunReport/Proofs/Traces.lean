import RunReport.Proofs.Children
import RunReport.Proofs.Dormancy
/-!
# What asking for a node leaves behind

Whoever asks for the root suite, for a child or for a message of a keyword is refused, is told that
there is none, is given a node that was there, or has it made. A refusal leaves nothing behind and
comes again, whatever was asked for in between. A node that is made is registered alone, except that
a test or suite may need the last keyword of its suite, which is made just before it.
-/

namespace RunReport

/-- The list, whether its length has been asked for or not. -/
def ChildList.measured (l : ChildList) : ChildList :=
  { l with made := l.made.measure }

/-- The node, whether the lengths of its lists have been asked for or not. -/
def Node.measured : Node → Node
  | .suite s => .suite { s with
      suites := s.suites.measured, tests := s.tests.measured, keywords := s.keywords.measured }
  | .test t => .test { t with
      keywords := { t.keywords with list := t.keywords.list.map ChildList.measured } }
  | .keyword k => .keyword { k with
      keywords := { k.keywords with list := k.keywords.list.map ChildList.measured }
      messages := k.messages.measured }
  | .message m => .message m

theorem Node.measured_updateList (n : Node) (kind : NodeKind) :
    (n.updateList ChildList.measured kind).measured = n.measured := by
  have twice : ∀ o : Option ChildList,
      (o.map ChildList.measured).map ChildList.measured = o.map ChildList.measured := by
    intro o
    cases o <;> rfl
  cases n <;> cases kind <;> simp only [updateList, measured, twice] <;> rfl

namespace Session

open Effects

variable {s t u : Session} {owner : Route} {i : Nat}

/-! ## Nothing left behind -/

/-- Every node by its id, oldest first, with its record and the slots of its lists. -/
def registry (s : Session) : List (NodeId × Node) :=
  s.nodes.map fun entry => (entry.1, entry.2.measured)

/-- The ids of all nodes, oldest first. -/
def ids (s : Session) : List NodeId :=
  s.nodes.map Prod.fst

/-- The nodes, the number of messages, the slots of all lists and the files are as they were. -/
structure Untouched (s t : Session) : Prop where
  registry : t.registry = s.registry
  messageCount : t.messageCount = s.messageCount
  errors : t.errors = s.errors
  loader : t.loader = s.loader

theorem Untouched.refl (s : Session) : s.Untouched s :=
  ⟨rfl, rfl, rfl, rfl⟩

theorem Untouched.trans (h : s.Untouched t) (h' : t.Untouched u) : s.Untouched u :=
  ⟨h'.registry.trans h.registry, h'.messageCount.trans h.messageCount, h'.errors.trans h.errors,
    h'.loader.trans h.loader⟩

theorem Untouched.ids (h : s.Untouched t) : t.ids = s.ids := by
  have keys : ∀ u : Session, u.ids = u.registry.map Prod.fst := by
    intro u
    simp only [Session.ids, Session.registry, List.map_map]
    rfl
  rw [keys, keys, h.registry]

theorem Refreshes.untouched (h : s.Refreshes t) : s.Untouched t :=
  ⟨by rw [Session.registry, Session.registry, h.nodes], h.messageCount, h.errors, h.explores.loader⟩

theorem untouched_measure (s : Session) (owner : Route) (kind : NodeKind) :
    s.Untouched ((made owner kind).update (·.measure) s) := by
  refine ⟨?_, rfl, rfl, rfl⟩
  simp only [registry, made, updateNode]
  induction s.nodes with
  | nil => rfl
  | cons entry rest ih =>
    obtain ⟨id, n⟩ := entry
    rw [updateIn]
    split
    · exact congrArg (fun m => (id, m) :: _) (n.measured_updateList kind)
    · exact congrArg (_ :: ·) ih

theorem ids_update (s : Session) (owner : Route) (kind : NodeKind)
    (f : LazyList NodeId → LazyList NodeId) : ((made owner kind).update f s).ids = s.ids :=
  keys_updateNode s ..

theorem ids_register (s : Session) (id : NodeId) (n : Node) (count : Nat) :
    (register id n count s).ids = s.ids ++ [id] := by
  simp only [ids, register, insertNode, List.map_append]
  rfl

/-! ## Making nodes -/

/-- What a computation leaves behind: nothing if it fails, and otherwise new nodes. -/
def Leaves {α : Type} (s : Session) (x : Run α) (new : α → List NodeId → Prop) : Prop :=
  match x.run s with
  | (.error _, t) => s.Untouched t
  | (.ok a, t) => ∃ more, new a more ∧ t.ids = s.ids ++ more

/-- The last keyword of a suite. -/
def lastOf? (s : Session) (owner : Route) : Option NodeId :=
  match (s.branch? owner).bind Node.plain? with
  | some (.suite record _ _ _) =>
    if record.keywords = [] then none
    else some (.branch (.child owner ⟨.keyword, record.keywords.length - 1⟩))
  | _ => none

/-- Nothing, or the last keyword of the suite. -/
def AtMostLast (s : Session) (owner : Route) (more : List NodeId) : Prop :=
  more = [] ∨ ∃ last, s.lastOf? owner = some last ∧ more = [last]

theorem lastOf?_congr
    (same : (t.branch? owner).bind Node.plain? = (s.branch? owner).bind Node.plain?) :
    t.lastOf? owner = s.lastOf? owner := by
  rw [lastOf?, lastOf?, same]

theorem AtMostLast.of_lastOf? {more : List NodeId} (h : t.AtMostLast owner more)
    (same : t.lastOf? owner = s.lastOf? owner) : s.AtMostLast owner more := by
  rw [AtMostLast, same] at h
  exact h

theorem Refreshes.lastOf? (h : s.Refreshes t) (owner : Route) :
    t.lastOf? owner = s.lastOf? owner :=
  lastOf?_congr (by rw [branch?, branch?, h.node?])

theorem lastOf?_measure (s : Session) (owner owner' : Route) (kind : NodeKind) :
    ((made owner' kind).update (·.measure) s).lastOf? owner = s.lastOf? owner :=
  lastOf?_congr ((mirrors_measure s owner' kind).plain? _)

/-- What is in the slot is given; otherwise the item is made, and only then is anything new. -/
theorem get_leaves {kind : NodeKind} {l : ChildList} (h : s.Consistent)
    (hl : s.list? owner kind = some l) (create : Nat → Run NodeId)
    {new : NodeId → List NodeId → Prop}
    (makes : l.made.slot? i = none → i < l.items.length →
      ((made owner kind).update (·.measure) s).Leaves (create i) new) :
    ∃ result t, ((made owner kind).get create i).run s = (result, t) ∧
      match result with
      | .error _ => s.Untouched t
      | .ok found => found = l.made.slot? i ∧ s.Untouched t ∨
          l.made.slot? i = none ∧ i < l.items.length ∧
            ∃ id more, new id more ∧ t.ids = s.ids ++ more := by
  obtain ⟨-, -, items, table, -, -, -, -, -, reads⟩ := h.list hl
  have untouched := untouched_measure s owner kind
  rw [Place.get_run, view_made (list?_measure hl)]
  simp only [show l.made.measure.length = l.made.length from rfl, LazyList.slot?_measure]
  generalize (made owner kind).update (·.measure) s = s₀ at *
  by_cases inside : i < l.made.length
  · rw [if_pos inside]
    cases hs : l.made.slot? i with
    | some id => exact ⟨_, s₀, rfl, .inl ⟨rfl, untouched⟩⟩
    | none =>
      have within : i < l.items.length := by rw [reads.items, ← reads.length]; exact inside
      have left := makes hs within
      rw [Leaves] at left
      rcases hc : (create i).run s₀ with ⟨_ | id, t⟩ <;> rw [hc] at left
      · exact ⟨_, t, rfl, untouched.trans left⟩
      · obtain ⟨more, hmore, ids⟩ := left
        refine ⟨_, _, rfl, .inr ⟨rfl, within, id, more, hmore, ?_⟩⟩
        rw [ids_update, ids, untouched.ids]
  · have empty : l.made.slot? i = none := by
      have outside : l.made.slots.length ≤ i := by
        have slots := reads.sound.slots
        have length := reads.sound.length
        omega
      rw [LazyList.slot?, List.getElem?_eq_none outside]
      rfl
    rw [if_neg inside, empty]
    exact ⟨_, s₀, rfl, .inl ⟨rfl, untouched⟩⟩

theorem createWith_leaves {kind : NodeKind} {l : ChildList} (hl : s.list? owner kind = some l)
    (inside : i < l.items.length) {decode : Route → Raw → TableRef → Nat → Run NodeId}
    {new : NodeId → List NodeId → Prop}
    (makes : ∀ r, s.Leaves (decode owner r l.table i) new) :
    s.Leaves (createWith decode owner kind i) new := by
  simp only [Leaves, createWith, run_bind, run_get, hl, List.getElem?_eq_getElem inside]
  exact makes _

theorem decodeKeyword_leaves (h : s.Consistent) (r : Raw) (table : TableRef)
    (new : s.node? (.branch (.child owner ⟨.keyword, i⟩)) = none) :
    s.Leaves (decodeKeyword owner r table i) fun _ more =>
      more = [.branch (.child owner ⟨.keyword, i⟩)] := by
  obtain ⟨s₁, run₁, refreshes⟩ := withTable_run h table (s.coding.steady_keyword r)
  simp only [Leaves, decodeKeyword, run_bind, checkOpen_run h.isOpen, exists?_run, new,
    Option.isSome_none, Bool.false_eq_true, if_false, run_get, run₁]
  cases s.source.readIn table (s.coding.keyword r) with
  | error e => exact refreshes.untouched
  | ok record =>
    refine ⟨_, rfl, ?_⟩
    rw [← refreshes.untouched.ids]
    exact ids_register s₁ _ _ s₁.messageCount

theorem lastKeyword_leaves (h : s.Consistent) {su : Suite}
    (hn : s.branch? owner = some (.suite su)) :
    s.Leaves (lastKeyword owner) fun _ more => s.AtMostLast owner more := by
  obtain ⟨p, -, follows⟩ := h.follows owner _ hn
  cases follows.plain
  obtain ⟨items, table, hi, reads⟩ := follows.listed .keyword su.keywords rfl
  cases hi
  have hl₀ := list?_measure (list?_of_branch s hn .keyword)
  have h₀ := consistent_measure h owner .keyword
  have untouched := untouched_measure s owner .keyword
  simp only [Leaves, lastKeyword, Place.last_run, view_made hl₀,
    show su.keywords.made.measure.length = su.keywords.made.length from rfl, reads.length]
  generalize (made owner .keyword).update (·.measure) s = s₀ at *
  cases hk : su.record.keywords.length with
  | zero => exact ⟨[], .inl rfl, by rw [untouched.ids, List.append_nil]⟩
  | succ k =>
    have last : s.lastOf? owner = some (.branch (.child owner ⟨.keyword, k⟩)) := by
      have some : su.record.keywords ≠ [] := by
        intro empty
        rw [empty] at hk
        cases hk
      simp only [lastOf?, hn, Option.bind_some, Node.plain?, if_neg some, hk, Nat.add_sub_cancel]
    obtain ⟨result, t, run, left⟩ := get_leaves (i := k) h₀ hl₀ (createKeyword owner)
      fun empty inside => createWith_leaves (list?_measure hl₀) inside fun r =>
        have h₁ := consistent_measure h₀ owner .keyword
        decodeKeyword_leaves h₁ r _ (h₁.not_registered (b := .keyword) (list?_measure hl₀) empty)
    simp only [run]
    cases result with
    | error e => exact untouched.trans left
    | ok found =>
      rcases left with ⟨-, same⟩ | ⟨-, -, id, more, rfl, ids⟩
      · exact ⟨[], .inl rfl, by rw [same.ids, untouched.ids, List.append_nil]⟩
      · exact ⟨_, .inr ⟨_, last, rfl⟩, by rw [ids, untouched.ids]⟩

theorem hasTeardownFailure_leaves (h : s.Consistent) (owner : Route) :
    s.Leaves (hasTeardownFailure owner) fun _ more => s.AtMostLast owner more := by
  have stays : ∃ more, s.AtMostLast owner more ∧ s.ids = s.ids ++ more :=
    ⟨[], .inl rfl, (List.append_nil _).symm⟩
  simp only [Leaves, hasTeardownFailure, run_bind, run_get]
  rcases hn : s.branch? owner with _ | (su | test | k | m)
  case some.suite =>
    have left := lastKeyword_leaves h hn
    simp only [Leaves] at left
    cases failed : su.aboveFailed with
    | true =>
      simp only [failed, if_true]
      exact stays
    | false =>
      simp only [failed, Bool.false_eq_true, if_false, run_bind]
      rcases hr : (lastKeyword owner).run s with ⟨_ | _ | last, t⟩ <;> rw [hr] at left <;> exact left
  all_goals exact stays

/-- The same after texts have been looked up. -/
theorem Refreshes.teardown_leaves {s₁ : Session} (refreshes : s.Refreshes s₁) (owner : Route) :
    ∃ result t, (hasTeardownFailure owner).run s₁ = (result, t) ∧
      match result with
      | .error _ => s.Untouched t
      | .ok _ => ∃ more, s.AtMostLast owner more ∧ t.ids = s.ids ++ more := by
  have left := hasTeardownFailure_leaves refreshes.consistent owner
  rw [Leaves] at left
  rcases hr : (hasTeardownFailure owner).run s₁ with ⟨_ | failed, t⟩ <;> rw [hr] at left
  · exact ⟨_, t, rfl, refreshes.untouched.trans left⟩
  · obtain ⟨more, last, ids⟩ := left
    refine ⟨_, t, rfl, more, last.of_lastOf? (refreshes.lastOf? owner), ?_⟩
    rw [ids, refreshes.untouched.ids]

/-- Below a node at most the last keyword of its suite is made besides the node asked for. -/
theorem decodeUnder_leaves {α : Type} (h : s.Consistent) (table : TableRef)
    {read : Coding → Lookup α} (steady : Lookup.Steady (read s.coding))
    {node : α → Bool → Option Node → Node} {id : NodeId} (new : s.node? id = none) :
    s.Leaves (decodeUnder owner id table read node) fun _ more => ∃ aids,
      s.AtMostLast owner aids ∧ more = aids ++ [id] := by
  obtain ⟨s₁, run₁, refreshes⟩ := withTable_run h table steady
  obtain ⟨result, s₂, run₂, left⟩ := refreshes.teardown_leaves owner
  simp only [Leaves, decodeUnder, run_bind, checkOpen_run h.isOpen, exists?_run, new,
    Option.isSome_none, Bool.false_eq_true, if_false, run_get, run₁]
  cases s.source.readIn table (read s.coding) with
  | error e => exact refreshes.untouched
  | ok record =>
    simp only [run₂]
    cases result with
    | error e => exact left
    | ok failed =>
      obtain ⟨aids, last, ids⟩ := left
      refine ⟨_, ⟨aids, last, rfl⟩, ?_⟩
      rw [← List.append_assoc, ← ids]
      exact ids_register s₂ _ _ s₂.messageCount

theorem decodeMessage_leaves (h : s.Consistent) (owner : Option Route) (r : Raw)
    (table : TableRef) :
    s.Leaves (decodeMessage owner r table) fun _ more =>
      more = [.message (s.messageCount + 1)] := by
  obtain ⟨s₁, refreshes, run⟩ := decodeMessage_run h owner r table
  simp only [Leaves, run]
  cases s.source.readIn table (s.coding.message r) with
  | error e => exact refreshes.untouched
  | ok record =>
    refine ⟨_, rfl, ?_⟩
    rw [← refreshes.messageCount, ← refreshes.untouched.ids]
    exact ids_register s₁ ..

/-! ## Single accesses -/

/-- A way to ask for one node. -/
inductive Access where
  | root
  | child (id : NodeId) (kind : NodeKind) (index : Nat)
  | message (id : NodeId) (index : Nat)

def Access.perform : Access → Run (Option NodeId)
  | .root => some <$> rootSuite
  | .child id kind index =>
    match branchOf? kind with
    | some b => Session.child id ⟨b, index⟩
    | none => return none
  | .message id index => messageAt id index

/-- What is made on the way to a node: for a test or suite below a suite, perhaps the last keyword
of that suite. -/
def Aids (s : Session) (id : NodeId) (aids : List NodeId) : Prop :=
  aids = [] ∨ ∃ owner step last, id = .branch (.child owner step) ∧ step.branch ≠ .keyword ∧
    s.lastOf? owner = some last ∧ aids = [last]

/-- What an access may come to, and what it leaves behind. -/
inductive Accessed (s t : Session) : Except Error (Option NodeId) → Prop
  | refused {e : Error} (same : s.Untouched t) : Accessed s t (.error e)
  | nothing (same : s.Untouched t) : Accessed s t (.ok none)
  | found {id : NodeId} (there : (s.node? id).isSome) (same : s.Untouched t) :
    Accessed s t (.ok (some id))
  | made {id : NodeId} {aids : List NodeId} (new : s.node? id = none) (needed : s.Aids id aids)
    (gained : t.ids = s.ids ++ aids ++ [id]) : Accessed s t (.ok (some id))

theorem AtMostLast.aids {aids : List NodeId} {b : Branch} (h : s.AtMostLast owner aids)
    (other : b ≠ .keyword) : s.Aids (.branch (.child owner ⟨b, i⟩)) aids := by
  rcases h with rfl | ⟨last, hlast, rfl⟩
  · exact .inl rfl
  · exact .inr ⟨owner, ⟨b, i⟩, last, rfl, other, hlast, rfl⟩

theorem Leaves.imp {α : Type} {x : Run α} {new new' : α → List NodeId → Prop}
    (h : s.Leaves x new) (weaker : ∀ a more, new a more → new' a more) : s.Leaves x new' := by
  rw [Leaves] at h ⊢
  rcases hx : x.run s with ⟨_ | a, t⟩ <;> rw [hx] at h
  · exact h
  · obtain ⟨more, hmore, ids⟩ := h
    exact ⟨more, weaker a more hmore, ids⟩

theorem decodeChild_leaves (h : s.Consistent) (b : Branch) (r : Raw) (table : TableRef)
    (new : s.node? (.branch (.child owner ⟨b, i⟩)) = none) :
    s.Leaves (decodeChild b.kind owner r table i) fun _ more => ∃ aids,
      s.Aids (.branch (.child owner ⟨b, i⟩)) aids ∧
      more = aids ++ [.branch (.child owner ⟨b, i⟩)] := by
  cases b with
  | suite =>
    simp only [Branch.kind, decodeChild, decodeSuite_eq]
    refine (decodeUnder_leaves h table (s.coding.steady_suite r) new).imp fun _ more => ?_
    rintro ⟨aids, last, rfl⟩
    exact ⟨aids, last.aids (by simp), rfl⟩
  | test =>
    simp only [Branch.kind, decodeChild, decodeTest_eq]
    refine (decodeUnder_leaves h table (s.coding.steady_test r) new).imp fun _ more => ?_
    rintro ⟨aids, last, rfl⟩
    exact ⟨aids, last.aids (by simp), rfl⟩
  | keyword =>
    refine (decodeKeyword_leaves h r table new).imp fun _ more => ?_
    rintro rfl
    exact ⟨[], .inl rfl, rfl⟩

theorem Aids.of_measure {kind : NodeKind} {id : NodeId} {aids : List NodeId}
    (h : ((made owner kind).update (·.measure) s).Aids id aids) : s.Aids id aids := by
  rcases h with rfl | ⟨owner', step, last, hid, other, hlast, rfl⟩
  · exact .inl rfl
  · exact .inr ⟨owner', step, last, hid, other, lastOf?_measure s owner' owner kind ▸ hlast, rfl⟩

theorem childAt_accessed (h : s.Consistent) {b : Branch} {l : ChildList}
    (hl : s.list? owner b.kind = some l) (i : Nat) :
    ∃ result t, (childAt owner b.kind i).run s = (result, t) ∧ s.Accessed t result := by
  obtain ⟨n, p, items, table, hn, hl', hf, hp, hi, reads⟩ := h.list hl
  obtain ⟨t, result, run, finds, -⟩ := childAt_finds h hn hf hp hl' i
  have h₀ := consistent_measure h owner b.kind
  obtain ⟨result', t', run', left⟩ := get_leaves h hl (create owner b.kind) fun empty inside =>
    createWith_leaves (list?_measure hl) inside fun r =>
      decodeChild_leaves h₀ b r _ (h₀.not_registered (list?_measure hl) empty)
  cases run.symm.trans run'
  refine ⟨result, t, run, ?_⟩
  cases result with
  | error e => exact .refused left
  | ok found =>
    rcases left with ⟨rfl, same⟩ | ⟨empty, inside, -, more, ⟨aids, needed, rfl⟩, ids⟩
    · cases hs : l.made.slot? i with
      | none => exact .nothing same
      | some id => exact .found (h.filled owner b.kind l i id hl hs).2 same
    · have given := finds.result
      have there := child?_ne_none hi (reads.items ▸ inside)
      rcases hc : s.source.child? p ⟨b, i⟩ with _ | _ | c <;> rw [hc] at given there
      · cases given
      · exact absurd rfl there
      · cases given
        exact .made (h.not_registered hl empty) needed.of_measure
          (ids.trans (List.append_assoc ..).symm)

theorem messageAt_accessed (h : s.Consistent) {l : ChildList}
    (hl : s.list? owner .message = some l) (i : Nat) :
    ∃ result t, (childAt owner .message i).run s = (result, t) ∧ s.Accessed t result := by
  obtain ⟨t, result, run, -, -, logs⟩ := messageAt_finds h hl i
  obtain ⟨result', t', run', left⟩ := get_leaves h hl (create owner .message)
    fun empty inside => createWith_leaves (list?_measure hl) inside fun r =>
      decodeMessage_leaves (consistent_measure h owner .message) (some owner) r _
  cases run.symm.trans run'
  refine ⟨result, t, run, ?_⟩
  cases result with
  | error e => exact .refused left
  | ok found =>
    rcases left with ⟨rfl, same⟩ | ⟨empty, inside, -, more, rfl, ids⟩
    · cases hs : l.made.slot? i with
      | none => exact .nothing same
      | some id => exact .found (h.filled owner .message l i id hl hs).2 same
    · rw [List.getElem?_eq_getElem inside, empty] at logs
      simp only at logs
      cases hread : s.source.readIn l.table (s.source.coding.message l.items[i]) with
      | error e => rw [hread] at logs; cases logs
      | ok record =>
        rw [hread] at logs
        obtain ⟨number, given, -, next⟩ := logs
        cases given
        cases next rfl
        have new := (registrable_message h ⟨record, some owner⟩).new
        exact .made new (.inl rfl) (by rw [List.append_nil]; exact ids)

theorem rootSuite_accessed (h : s.Consistent) :
    ∃ result t, rootSuite.run s = (result, t) ∧ s.Accessed t (result.map some) := by
  have run : rootSuite.run s = (decodeSuiteAt none s.suite .main 0).run s := by
    simp only [rootSuite, run_bind, run_get]
  rw [run]
  simp only [decodeSuiteAt, run_bind, checkOpen_run h.isOpen, exists?_run]
  cases hn : s.node? (.branch .root) with
  | some n => exact ⟨_, s, rfl, .found (by rw [hn]; rfl) (.refl s)⟩
  | none =>
    obtain ⟨s₁, run₁, refreshes⟩ := withTable_run h .main (s.coding.steady_suite s.suite)
    simp only [Option.isSome_none, Bool.false_eq_true, if_false, run_bind, run_get, run₁]
    cases s.source.readIn .main (s.coding.suite s.suite) with
    | error e => exact ⟨_, s₁, rfl, .refused refreshes.untouched⟩
    | ok record =>
      refine ⟨_, _, rfl, .made hn (.inl rfl) ?_⟩
      rw [List.append_nil, ← refreshes.untouched.ids]
      exact ids_register s₁ _ _ s₁.messageCount

theorem perform_accessed (h : s.Consistent) (a : Access) :
    s.Accessed (a.perform.run s).2 (a.perform.run s).1 := by
  cases a with
  | root =>
    obtain ⟨result, t, run, accessed⟩ := rootSuite_accessed h
    simp only [Access.perform, run_map, run]
    exact accessed
  | child id kind index =>
    simp only [Access.perform]
    cases branchOf? kind with
    | none => exact .nothing (.refl s)
    | some b =>
      cases id with
      | message number => exact .nothing (.refl s)
      | branch r =>
        simp only [Session.child, run_bind, run_get]
        cases hl : s.list? r b.kind with
        | none => exact .nothing (.refl s)
        | some l =>
          obtain ⟨result, t, run, accessed⟩ := childAt_accessed h hl index
          simp only [run]
          exact accessed
  | message id index =>
    cases id with
    | message number => exact .nothing (.refl s)
    | branch r =>
      simp only [Access.perform, messageAt, run_bind, run_get]
      cases hl : s.list? r .message with
      | none => exact .nothing (.refl s)
      | some l =>
        obtain ⟨result, t, run, accessed⟩ := messageAt_accessed h hl index
        simp only [run]
        exact accessed

/-! ## Asking again -/

theorem keeps_perform (a : Access) : Keeps Explores a.perform := by
  cases a with
  | root => exact keeps_map _ keeps_rootSuite
  | child id kind index =>
    simp only [Access.perform]
    cases branchOf? kind with
    | none => exact keeps_pure _
    | some b => exact keeps_child id ⟨b, index⟩
  | message id index => exact keeps_message id index

/-- The session after some accesses, of which any may have failed. -/
def after (s : Session) (accesses : List Access) : Session :=
  accesses.foldl (fun s a => (a.perform.run s).2) s

theorem after_explores (h : s.Consistent) (accesses : List Access) :
    (s.after accesses).Consistent ∧ s.Explores (s.after accesses) := by
  induction accesses generalizing s with
  | nil => exact ⟨h, .refl s⟩
  | cons a rest ih =>
    obtain ⟨h', e⟩ := keeps_perform a s h
    obtain ⟨h'', e'⟩ := ih h'
    exact ⟨h'', e.trans e'⟩

/-- A child that cannot be read cannot be read later. -/
theorem childAt_error (h : s.Consistent) (h' : t.Consistent) (e : s.Explores t) {b : Branch}
    {l l' : ChildList} (hl : s.list? owner b.kind = some l) (hl' : t.list? owner b.kind = some l')
    {err : Error} (failed : ((childAt owner b.kind i).run s).1 = .error err) :
    ((childAt owner b.kind i).run t).1 = .error err := by
  have result : ∀ {u : Session} {l : ChildList}, u.Consistent → u.list? owner b.kind = some l →
      ∃ p, u.source.node? owner = .ok (some p) ∧ ((childAt owner b.kind i).run u).1 =
        (u.source.child? p ⟨b, i⟩).map (Option.map fun _ => .branch (.child owner ⟨b, i⟩)) := by
    intro u l hu hl
    obtain ⟨n, p, -, -, hn, hl, hf, hp, -⟩ := hu.list hl
    obtain ⟨u', result, run, finds, -⟩ := childAt_finds hu hn hf hp hl i
    exact ⟨p, hp, by rw [run, finds.result]⟩
  obtain ⟨p, hp, given⟩ := result h hl
  obtain ⟨p', hp', given'⟩ := result h' hl'
  rw [e.source] at hp' given'
  cases hp.symm.trans hp'
  rw [given', ← given, failed]

theorem Logs.read_error {s' : Session} {read : Except Error (Option MessageRecord)} {made : Bool}
    {err : Error} (h : s.Logs s' owner read made (.error err)) : read = .error err := by
  rcases read with err' | _ | record
  · cases h
    rfl
  · cases h
  · obtain ⟨number, given, -⟩ := h
    cases given

theorem messageAt_error (h : s.Consistent) (h' : t.Consistent) (e : s.Explores t) {l : ChildList}
    (hl : s.list? owner .message = some l) {err : Error}
    (failed : ((childAt owner .message i).run s).1 = .error err) :
    ((childAt owner .message i).run t).1 = .error err := by
  obtain ⟨l', hl', grows⟩ := e.lists owner .message l hl
  obtain ⟨s', result, run, -, -, logs⟩ := messageAt_finds h hl i
  obtain ⟨t', result', run', -, -, logs'⟩ := messageAt_finds h' hl' i
  rw [grows.items, grows.table, e.source] at logs'
  simp only [childAt, run, run'] at failed ⊢
  subst failed
  rw [logs.read_error] at logs'
  exact logs'

theorem perform_error (h : s.Consistent) (h' : t.Consistent) (e : s.Explores t) {a : Access}
    {err : Error} (failed : (a.perform.run s).1 = .error err) :
    (a.perform.run t).1 = .error err := by
  cases a with
  | root =>
    obtain ⟨s', run, -⟩ := rootSuite_run h
    obtain ⟨t', run', -⟩ := rootSuite_run h'
    have suite : t.suite = s.suite := congrArg Source.suite e.source
    simp only [Access.perform, run_map, run, run', e.source, suite] at failed ⊢
    exact failed
  | child id kind index =>
    simp only [Access.perform] at failed ⊢
    revert failed
    cases branchOf? kind with
    | none => rintro ⟨⟩
    | some b =>
      intro failed
      cases id with
      | message number => cases failed
      | branch r =>
        simp only [Session.child, run_bind, run_get] at failed ⊢
        cases hl : s.list? r b.kind with
        | none => rw [hl] at failed; cases failed
        | some l =>
          obtain ⟨l', hl', -⟩ := e.lists r b.kind l hl
          rw [hl] at failed
          rw [hl']
          exact childAt_error h h' e hl hl' failed
  | message id index =>
    cases id with
    | message number => cases failed
    | branch r =>
      simp only [Access.perform, messageAt, run_bind, run_get] at failed ⊢
      cases hl : s.list? r .message with
      | none => rw [hl] at failed; cases failed
      | some l =>
        obtain ⟨l', hl', -⟩ := e.lists r .message l hl
        rw [hl] at failed
        rw [hl']
        exact messageAt_error h h' e hl failed

/-- In every session whose report is open, for every single node that is asked for: a refusal, like
the answer that there is none, leaves the nodes, the number of messages, all slots and the files as
they were, and the refusal comes again, whatever else was asked for in between; a node that was
there is given with nothing changed; and a node that is made is registered last, after at most the
last keyword of its suite if it is a test or suite. -/
theorem access_leaves_only_its_node (h : s.Reachable) (a : Access) :
    s.Accessed (a.perform.run s).2 (a.perform.run s).1 ∧ s.Explores (a.perform.run s).2 ∧
    ∀ err, (a.perform.run s).1 = .error err →
      ∀ accesses, (a.perform.run ((a.perform.run s).2.after accesses)).1 = .error err := by
  have consistent := h.consistent
  obtain ⟨kept, explores⟩ := keeps_perform a s consistent
  refine ⟨perform_accessed consistent a, explores, fun err failed accesses => ?_⟩
  obtain ⟨kept', explores'⟩ := after_explores kept accesses
  exact perform_error consistent kept' (explores.trans explores') failed

/-- A suite with a failed teardown, a test and a record that is none. -/
def brokenReport : String :=
  "\x7b\"version\":2,\"generatedMillis\":0,\"baseMillis\":0," ++
  "\"strings\":[\"*\",\"*Root\",\"*k\"]," ++
    "\"suite\":[1,0,0,0,[],[1,0,1],[],[[1,0,1,0,[],[1,0,1],[]],[]]," ++
    "[[2,2,0,0,0,[0,0,1],[],[]]],[2,1,1,2]],\"stats\":[]\x7d"

/-- The suite is shown. -/
def rootRun : List (Files × Step) :=
  [(sampleFiles, .report .suite)]

/-- Whether the test is there to be made, with the keyword, and the other record is refused. -/
def makesOneRefusesOther (s : Session) : Bool :=
  match (Access.child .root .test 0).perform.run s, (Access.child .root .test 1).perform.run s with
  | (.ok (some id), t), (.error _, _) =>
    id == .branch (.child .root ⟨.test, 0⟩) && (s.node? id).isNone &&
      (s.branch? (.child .root ⟨.keyword, 0⟩)).isNone &&
      (t.branch? (.child .root ⟨.keyword, 0⟩)).isSome
  | _, _ => false

theorem access_leaves_only_its_node_sample : ∃ (s t u : Session) (aids : List NodeId) (err : Error),
    s.Reachable ∧
    (Access.child .root .test 0).perform.run s =
      (.ok (some (.branch (.child .root ⟨.test, 0⟩))), t) ∧
    s.Aids (.branch (.child .root ⟨.test, 0⟩)) aids ∧
    t.ids = s.ids ++ aids ++ [.branch (.child .root ⟨.test, 0⟩)] ∧
    (s.branch? (.child .root ⟨.keyword, 0⟩)).isNone ∧
    (t.branch? (.child .root ⟨.keyword, 0⟩)).isSome ∧
    (Access.child .root .test 1).perform.run s = (.error err, u) ∧ s.Untouched u ∧
    ((Access.child .root .test 1).perform.run u).1 = .error err := by
  have opens : opensTo (fun s₀ => makesOneRefusesOther ((play rootRun).run s₀).2) brokenReport =
      true := by
    decide +kernel
  obtain ⟨s₀, opened, shown⟩ := opensTo_iff.1 opens
  have reachable : ((play rootRun).run s₀).2.Reachable :=
    ⟨brokenReport, s₀, rootRun, opened, by simp [rootRun, Step.keepsReport], rfl⟩
  generalize ((play rootRun).run s₀).2 = s at reachable shown
  obtain ⟨making, -, -⟩ := access_leaves_only_its_node reachable (.child .root .test 0)
  obtain ⟨refusing, -, again⟩ := access_leaves_only_its_node reachable (.child .root .test 1)
  rw [makesOneRefusesOther] at shown
  split at shown
  · rename_i id t err u run run'
    simp only [Bool.and_eq_true, beq_iff_eq, Option.isNone_iff_eq_none] at shown
    obtain ⟨⟨⟨rfl, new⟩, before⟩, afterwards⟩ := shown
    rw [run] at making
    rw [run'] at refusing again
    cases making with
    | found there same =>
      rw [new] at there
      cases there
    | made _ needed gained =>
      cases refusing with
      | refused same =>
        exact ⟨s, t, u, _, err, reachable, run, needed, gained, by rw [before]; rfl, afterwards, run',
          same, again err rfl []⟩
  · cases shown

end Session

end RunReport
