import RunReport.Proofs.Consistency
import RunReport.Session.Decode
/-!
# Making nodes keeps a session consistent

Looking up strings changes the tables only. A node is registered and then put into the slot it was
made for; between the two the session is faithful but the node has no place yet.
-/

namespace RunReport.Session

open Effects

variable {s s' : Session}

/-! ## Strings -/

/-- Only the string tables may have changed. -/
structure Refreshes (s s' : Session) : Prop where
  consistent : s'.Consistent
  explores : s.Explores s'
  nodes : s'.nodes = s.nodes
  messageCount : s'.messageCount = s.messageCount
  errors : s'.errors = s.errors
  coding : s'.coding = s.coding

theorem Refreshes.refl (h : s.Consistent) : s.Refreshes s :=
  ⟨h, .refl s, rfl, rfl, rfl, rfl⟩

theorem Refreshes.trans {s'' : Session} (h : s.Refreshes s') (h' : s'.Refreshes s'') :
    s.Refreshes s'' :=
  ⟨h'.consistent, h.explores.trans h'.explores, h'.nodes.trans h.nodes,
    h'.messageCount.trans h.messageCount, h'.errors.trans h.errors, h'.coding.trans h.coding⟩

theorem Refreshes.node? (h : s.Refreshes s') (id : NodeId) : s'.node? id = s.node? id := by
  simp only [Session.node?, h.nodes]

theorem Refreshes.list? (h : s.Refreshes s') (owner : Route) (kind : NodeKind) :
    s'.list? owner kind = s.list? owner kind := by
  simp only [Session.list?, branch?, h.node?]

theorem source_setTable (ref : TableRef) (t : StringTable)
    (entries : t.entries = (s.tableOf ref).entries) : (setTable ref t s).source = s.source := by
  cases ref with
  | main => simp only [setTable, source, entries, tableOf]
  | split file => rfl

theorem refreshes_setTable (h : s.Consistent) (ref : TableRef) {t : StringTable} (sound : t.Sound)
    (entries : t.entries = (s.tableOf ref).entries) : s.Refreshes (setTable ref t s) := by
  have source := source_setTable ref t entries
  have tables : ∀ ref', ((setTable ref t s).tableOf ref').Sound ∧
      ((setTable ref t s).tableOf ref').entries = (setTable ref t s).source.entries ref' := by
    intro ref'
    rw [source]
    rcases tableOf_setTable s ref ref' t with same | ⟨rfl, new⟩
    · rw [same]
      exact h.tables ref'
    · rw [new]
      exact ⟨sound, entries.trans (h.tables ref').2⟩
  obtain ⟨strings, splitStrings, eq⟩ := setTable_frame s ref t
  rw [eq] at source tables ⊢
  refine ⟨⟨⟨h.isOpen, tables, ?_, h.unique, ?_, h.filled, h.counted, h.logged, ?_, h.errors,
    h.failures, h.distinct, h.waiting⟩, h.owned⟩, ⟨source, ?_, ?_, .refl _, rfl, rfl, rfl, rfl, rfl⟩,
    rfl, rfl, rfl, rfl⟩
  · rw [source]
    exact h.texts
  · rw [source]
    exact h.follows
  · intro owner l i id hl hi
    rw [Recorded, source]
    exact h.recorded owner l i id hl hi
  · exact fun _ n hn => ⟨n, hn, rfl, rfl, fun _ => rfl⟩
  · exact fun _ _ l hl => ⟨l, hl, .refl l⟩

/-- A lookup gives what the source says. -/
theorem withTable_run {α : Type} (h : s.Consistent) (ref : TableRef) {x : Lookup α}
    (steady : Lookup.Steady x) :
    ∃ s', (withTable ref x).run s = (s.source.readIn ref x, s') ∧ s.Refreshes s' := by
  obtain ⟨sound, entries⟩ := h.tables ref
  obtain ⟨result, sound', entries'⟩ := steady _ sound
  refine ⟨setTable ref (x.run (s.tableOf ref)).2 s, ?_, refreshes_setTable h ref sound' entries'⟩
  rw [Source.readIn, ← entries, ← result]
  rfl

/-! ## Lists -/

theorem isSome_update (owner : Route) (kind : NodeKind) (f : LazyList NodeId → LazyList NodeId)
    (id : NodeId) :
    (((made owner kind).update f s).node? id).isSome = (s.node? id).isSome := by
  rw [node?_update]
  split <;> simp

theorem explores_update (owner : Route) (kind : NodeKind) {f : LazyList NodeId → LazyList NodeId}
    (grows : ∀ l, LazyList.Grows l (f l)) : s.Explores ((made owner kind).update f s) := by
  refine ⟨rfl, ?_, ?_, .refl _, rfl, rfl, rfl, rfl, rfl⟩
  · intro id n hn
    rw [node?_update, hn]
    by_cases hid : id = .branch owner
    · rw [if_pos hid]
      refine ⟨_, rfl, Node.plain?_updateList .., Node.splitFile?_updateList .., fun kind' => ?_⟩
      by_cases hk : kind' = kind
      · subst hk
        simp [Node.list?_updateList]
      · rw [Node.list?_updateList_other _ _ hk]
    · rw [if_neg hid]
      exact ⟨n, rfl, rfl, rfl, fun _ => rfl⟩
  · intro owner' kind' l hl
    rw [list?_update]
    by_cases here : owner' = owner ∧ kind' = kind
    · obtain ⟨rfl, rfl⟩ := here
      rw [if_pos ⟨rfl, rfl⟩, hl]
      exact ⟨_, rfl, rfl, rfl, grows l.made⟩
    · rw [if_neg here]
      exact ⟨l, hl, .refl l⟩

/-- Changing what was made of a list keeps a session faithful if all that is in it is registered. -/
theorem Faithful.update (h : s.Faithful) (owner : Route) (kind : NodeKind)
    {f : LazyList NodeId → LazyList NodeId} (grows : ∀ l, LazyList.Grows l (f l))
    (sound : ∀ l, s.list? owner kind = some l → l.made.Sound → (f l.made).Sound)
    (fills : ∀ l i id, s.list? owner kind = some l → (f l.made).slot? i = some id →
      Belongs owner kind i id ∧ (s.node? id).isSome)
    (records : ∀ l i id, s.list? owner .message = some l → kind = .message →
      (f l.made).slot? i = some id → s.Recorded owner l i id) :
    ((made owner kind).update f s).Faithful where
  isOpen := h.isOpen
  tables := h.tables
  texts _ _ _ kept := (explores_update owner kind grows).extends.texts h kept
  unique := (keys_updateNode s ..).symm ▸ h.unique
  follows := by
    intro r n hn
    rw [branch?, node?_update] at hn
    by_cases hr : NodeId.branch r = .branch owner
    · rw [if_pos hr] at hn
      obtain ⟨n', hn', rfl⟩ := Option.map_eq_some_iff.1 hn
      obtain ⟨p, hp, hf⟩ := h.follows r n' hn'
      cases hr
      refine ⟨p, hp, hf.updateList kind f (fun l => (grows l).size) fun l hl => sound l ?_⟩
      rw [list?_of_branch _ hn', hl]
    · rw [if_neg hr] at hn
      exact h.follows r n hn
  filled := by
    intro owner' kind' l i id hl hi
    rw [isSome_update]
    rw [list?_update] at hl
    by_cases here : owner' = owner ∧ kind' = kind
    · rw [if_pos here] at hl
      obtain ⟨rfl, rfl⟩ := here
      obtain ⟨l', hl', rfl⟩ := Option.map_eq_some_iff.1 hl
      exact fills l' i id hl' hi
    · rw [if_neg here] at hl
      exact h.filled owner' kind' l i id hl hi
  counted number := by
    rw [isSome_update]
    exact h.counted number
  logged := by
    intro number n hn
    rw [node?_update, if_neg (by simp)] at hn
    exact h.logged number n hn
  recorded := by
    -- A list of messages keeps its records, and messages are not changed.
    have kept : ∀ owner' l i id, s.Recorded owner' l i id →
        ((made owner kind).update f s).Recorded owner' l i id := by
      rintro owner' l i id ⟨raw, record, hraw, read, hn⟩
      refine ⟨raw, record, hraw, read, ?_⟩
      rw [node?_update, if_neg ?_]
      · exact hn
      · rintro rfl
        obtain ⟨p, -, hf⟩ := h.follows owner _ hn
        cases hf.plain
    intro owner' l i id hl hi
    rw [list?_update] at hl
    by_cases here : owner' = owner ∧ NodeKind.message = kind
    · rw [if_pos here] at hl
      obtain ⟨rfl, rfl⟩ := here
      obtain ⟨l', hl', rfl⟩ := Option.map_eq_some_iff.1 hl
      exact kept owner' l' i id (records l' i id hl' rfl hi)
    · rw [if_neg here] at hl
      exact kept owner' l i id (h.recorded owner' l i id hl hi)
  errors := h.errors
  failures i id hi := ⟨(h.failures i id hi).1, by rw [isSome_update]; exact (h.failures i id hi).2⟩
  distinct := h.distinct
  waiting := by
    intro file ws hs node next hw
    obtain ⟨n, hn, hf⟩ := h.waiting file ws hs node next hw
    obtain ⟨n', hn', -, hf', -⟩ := (explores_update owner kind grows).nodes _ n hn
    exact ⟨n', hn', hf'.trans hf⟩

/-- A node that is in its slot stays there when no slot loses what it holds. -/
theorem owned_update (owner : Route) (kind : NodeKind) {f : LazyList NodeId → LazyList NodeId}
    (keeps : ∀ l i id, l.slot? i = some id → (f l).slot? i = some id)
    {owner' : Route} {kind' : NodeKind} {i : Nat} {id : NodeId}
    (h : ∃ l, s.list? owner' kind' = some l ∧ l.made.slot? i = some id) :
    ∃ l, ((made owner kind).update f s).list? owner' kind' = some l ∧
      l.made.slot? i = some id := by
  obtain ⟨l, hl, hi⟩ := h
  rw [list?_update]
  by_cases here : owner' = owner ∧ kind' = kind
  · rw [if_pos here]
    obtain ⟨rfl, rfl⟩ := here
    rw [hl]
    exact ⟨_, rfl, keeps _ _ _ hi⟩
  · rw [if_neg here]
    exact ⟨l, hl, hi⟩

/-- A list may remember more of itself while its slots stay as they are. -/
theorem Consistent.update (h : s.Consistent) (owner : Route) (kind : NodeKind)
    {f : LazyList NodeId → LazyList NodeId} (grows : ∀ l, LazyList.Grows l (f l))
    (sound : ∀ l, s.list? owner kind = some l → l.made.Sound → (f l.made).Sound)
    (slots : ∀ l i, (f l).slot? i = l.slot? i) : ((made owner kind).update f s).Consistent where
  toFaithful := h.toFaithful.update owner kind grows sound
    (fun l i id hl hi => h.filled owner kind l i id hl (slots l.made i ▸ hi))
    fun l i id hl _ hi => h.recorded owner l i id hl (slots l.made i ▸ hi)
  owned := by
    intro owner' step hs
    rw [branch?, isSome_update] at hs
    exact owned_update owner kind (fun l => (grows l).slots) (h.owned owner' step hs)

theorem consistent_measure (h : s.Consistent) (owner : Route) (kind : NodeKind) :
    ((made owner kind).update (·.measure) s).Consistent :=
  h.update owner kind LazyList.grows_measure (fun _ _ => LazyList.Sound.measure) LazyList.slot?_measure

theorem explores_measure (s : Session) (owner : Route) (kind : NodeKind) :
    s.Explores ((made owner kind).update (·.measure) s) :=
  explores_update owner kind LazyList.grows_measure

/-! ## Registering -/

/-- What it takes to register a node: a new id, a node without children, and for a suite, test or
keyword that it is what the source says. -/
structure Registrable (s : Session) (id : NodeId) (n : Node) (count : Nat) : Prop where
  new : s.node? id = none
  fresh : ∀ kind l, n.list? kind = some l → ∀ i, l.made.slot? i = none
  branch : ∀ r, id = .branch r → count = s.messageCount ∧
    ∃ p, s.source.node? r = .ok (some p) ∧ n.Follows s.source p
  message : ∀ number, id = .message number →
    number = s.messageCount + 1 ∧ count = number ∧ ∃ m, n = .message m

/-- The session with one more node. -/
def register (id : NodeId) (n : Node) (count : Nat) (s : Session) : Session :=
  insertNode id n { s with messageCount := count }

theorem node?_register_new {id : NodeId} {n : Node} {count : Nat} (new : s.node? id = none) :
    (register id n count s).node? id = some n := by
  rw [register, node?_insertNode,
    show ({ s with messageCount := count } : Session).node? id = none from new]
  simp

theorem node?_register_other {id id' : NodeId} {n : Node} {count : Nat} (h : id' ≠ id) :
    (register id n count s).node? id' = s.node? id' := by
  rw [register, node?_insertNode, if_neg h, Option.or_none]
  rfl

theorem explores_register {id : NodeId} {n : Node} {count : Nat} (new : s.node? id = none) :
    s.Explores (register id n count s) := by
  have there : ∀ {id' n'}, s.node? id' = some n' → (register id n count s).node? id' = some n' := by
    intro id' n' hn
    refine (node?_register_other ?_).trans hn
    rintro rfl
    rw [new] at hn
    cases hn
  refine ⟨rfl, fun _ n' hn => ⟨n', there hn, rfl, rfl, fun _ => rfl⟩, ?_, .refl _, rfl, rfl, rfl, rfl,
    rfl⟩
  intro owner kind l hl
  obtain ⟨n', hn, hl⟩ := (list?_eq_some s).1 hl
  exact ⟨l, (list?_eq_some _).2 ⟨n', there hn, hl⟩, .refl l⟩

theorem list?_register_other {id : NodeId} {n : Node} {count : Nat} {owner : Route}
    (h : .branch owner ≠ id) (kind : NodeKind) :
    (register id n count s).list? owner kind = s.list? owner kind := by
  simp only [list?, branch?, node?_register_other h]

theorem Recorded.register {id id' : NodeId} {n : Node} {count : Nat} {owner : Route}
    {l : ChildList} {i : Nat} (h : s.Recorded owner l i id') (new : s.node? id = none) :
    (register id n count s).Recorded owner l i id' := by
  obtain ⟨raw, record, hraw, read, hn⟩ := h
  refine ⟨raw, record, hraw, read, ?_⟩
  rw [node?_register_other ?_]
  · exact hn
  · rintro rfl
    rw [new] at hn
    cases hn

theorem Faithful.register (h : s.Faithful) {id : NodeId} {n : Node} {count : Nat}
    (new : s.Registrable id n count) : (register id n count s).Faithful := by
  have explores : s.Explores (Session.register id n count s) := explores_register new.new
  refine ⟨h.isOpen, h.tables, fun _ _ _ kept => explores.extends.texts h kept, ?_, ?_, ?_, ?_, ?_,
    ?_, h.errors, ?_, h.distinct, ?_⟩
  · have absent : id ∉ s.nodes.map Prod.fst := by
      rw [mem_keys_iff, new.new]
      simp
    simp only [Session.register, insertNode, List.map_append, List.map_cons, List.map_nil]
    refine List.nodup_append.2 ⟨h.unique, by simp, ?_⟩
    intro a ha b hb hab
    simp only [List.mem_singleton] at hb
    exact absent (hb ▸ hab ▸ ha)
  · intro r n' hn
    by_cases hr : NodeId.branch r = id
    · subst hr
      rw [branch?, node?_register_new new.new] at hn
      cases hn
      exact (new.branch r rfl).2
    · rw [branch?, node?_register_other hr] at hn
      exact h.follows r n' hn
  · intro owner kind l i id' hl hi
    by_cases ho : NodeId.branch owner = id
    · subst ho
      rw [list?_of_branch _ (node?_register_new new.new)] at hl
      rw [new.fresh kind l hl i] at hi
      cases hi
    · rw [list?_register_other ho] at hl
      obtain ⟨belongs, registered⟩ := h.filled owner kind l i id' hl hi
      exact ⟨belongs, explores.extends.isSome registered⟩
  · intro number
    by_cases hid : NodeId.message number = id
    · subst hid
      obtain ⟨hn, hc, -⟩ := new.message number rfl
      rw [node?_register_new new.new]
      simp only [Option.isSome_some, Session.register, insertNode, true_iff]
      omega
    · rw [node?_register_other hid, h.counted number]
      simp only [Session.register, insertNode]
      cases hid' : id with
      | branch r => rw [(new.branch r hid').1]
      | message k =>
        obtain ⟨hn, hc, -⟩ := new.message k hid'
        have different : number ≠ k := by
          rintro rfl
          exact hid hid'.symm
        omega
  · intro number n' hn
    by_cases hid : NodeId.message number = id
    · subst hid
      rw [node?_register_new new.new] at hn
      cases hn
      exact (new.message number rfl).2.2
    · rw [node?_register_other hid] at hn
      exact h.logged number n' hn
  · intro owner l i id' hl hi
    by_cases ho : NodeId.branch owner = id
    · subst ho
      rw [list?_of_branch _ (node?_register_new new.new)] at hl
      rw [new.fresh _ l hl i] at hi
      cases hi
    · rw [list?_register_other ho] at hl
      exact (h.recorded owner l i id' hl hi).register new.new
  · intro i id' hi
    exact ⟨(h.failures i id' hi).1, explores.extends.isSome (h.failures i id' hi).2⟩
  · intro file ws hs node next hw
    obtain ⟨n', hn, hf⟩ := h.waiting file ws hs node next hw
    obtain ⟨n'', hn', -, hf', -⟩ := explores.nodes _ n' hn
    exact ⟨n'', hn', hf'.trans hf⟩

/-- A node that is not a child needs no slot. -/
theorem Consistent.register (h : s.Consistent) {id : NodeId} {n : Node} {count : Nat}
    (new : s.Registrable id n count) (top : ∀ owner step, id ≠ .branch (.child owner step)) :
    (register id n count s).Consistent where
  toFaithful := h.toFaithful.register new
  owned := by
    intro owner step hs
    rw [branch?, node?_register_other (top owner step).symm] at hs
    obtain ⟨l, hl, hi⟩ := h.owned owner step hs
    refine ⟨l, ?_, hi⟩
    have other : NodeId.branch owner ≠ id := by
      rintro rfl
      obtain ⟨n', hn', -⟩ := (list?_eq_some s).1 hl
      rw [branch?, new.new] at hn'
      cases hn'
    rw [list?_register_other other]
    exact hl

/-- The session with one more node in a slot of a list. -/
def place (owner : Route) (kind : NodeKind) (i : Nat) (id : NodeId) (n : Node) (count : Nat)
    (s : Session) : Session :=
  (made owner kind).update (·.fill i id) (register id n count s)

section Place

variable {owner : Route} {kind : NodeKind} {l : ChildList} {i : Nat} {id : NodeId} {n : Node}
  {count : Nat}

theorem branch_ne_of_new (new : s.node? id = none) (hl : s.list? owner kind = some l) :
    NodeId.branch owner ≠ id := by
  rintro rfl
  obtain ⟨n', hn', -⟩ := (list?_eq_some s).1 hl
  rw [branch?, new] at hn'
  cases hn'

theorem explores_place (new : s.node? id = none) : s.Explores (place owner kind i id n count s) :=
  (explores_register new).trans (explores_update _ _ fun l => l.grows_fill i id)

theorem list?_place (new : s.node? id = none) (hl : s.list? owner kind = some l) :
    (place owner kind i id n count s).list? owner kind =
      some { l with made := l.made.fill i id } := by
  rw [place, list?_update, if_pos ⟨rfl, rfl⟩, list?_register_other (branch_ne_of_new new hl), hl]
  rfl

theorem slot?_place (h : s.Consistent) (hl : s.list? owner kind = some l)
    (hi : i < l.items.length) (empty : l.made.slot? i = none) (id : NodeId) :
    (l.made.fill i id).slot? i = some id := by
  obtain ⟨-, -, items, table, -, -, -, -, -, reads⟩ := h.list hl
  refine LazyList.slot?_fill_empty id ?_ empty
  rw [reads.length, ← reads.items]
  exact hi

/-- A node that is registered and put into its empty slot. -/
theorem Consistent.place (h : s.Consistent) (new : s.Registrable id n count)
    (hl : s.list? owner kind = some l) (hi : i < l.items.length) (empty : l.made.slot? i = none)
    (belongs : Belongs owner kind i id)
    (records : kind = .message → (Session.register id n count s).Recorded owner l i id) :
    (place owner kind i id n count s).Consistent := by
  have explores : s.Explores (Session.register id n count s) := explores_register new.new
  have registered : ((Session.register id n count s).node? id).isSome := by
    rw [node?_register_new new.new]
    rfl
  have same : ∀ kind', (Session.register id n count s).list? owner kind' = s.list? owner kind' :=
    list?_register_other (branch_ne_of_new new.new hl)
  refine ⟨(h.toFaithful.register new).update owner kind (fun l => l.grows_fill i id)
    (fun _ _ sound => sound.fill i id) ?_ ?_, ?_⟩
  · intro l' j id' hl' hj
    rw [same] at hl'
    by_cases hji : j = i
    · subst hji
      rw [hl] at hl'
      cases hl'
      rw [slot?_place h hl hi empty] at hj
      cases hj
      exact ⟨belongs, registered⟩
    · rw [LazyList.slot?_fill_other _ _ hji] at hj
      obtain ⟨belongs', registered'⟩ := h.filled owner kind l' j id' hl' hj
      exact ⟨belongs', explores.extends.isSome registered'⟩
  · rintro l' j id' hl' rfl hj
    rw [same, hl] at hl'
    cases hl'
    by_cases hji : j = i
    · subst hji
      rw [slot?_place h hl hi empty] at hj
      cases hj
      exact records rfl
    · rw [LazyList.slot?_fill_other _ _ hji] at hj
      exact (h.recorded owner l j id' hl hj).register new.new
  · intro owner' step hs
    rw [branch?, Session.place, isSome_update] at hs
    by_cases hid : NodeId.branch (.child owner' step) = id
    · -- The new node itself: its id says which slot it was made for.
      have here : owner' = owner ∧ step.branch.kind = kind ∧ step.index = i := by
        subst hid
        cases kind <;> simp only [Belongs, NodeId.branch.injEq, Route.child.injEq] at belongs
        · obtain ⟨rfl, rfl⟩ := belongs; exact ⟨rfl, rfl, rfl⟩
        · obtain ⟨rfl, rfl⟩ := belongs; exact ⟨rfl, rfl, rfl⟩
        · obtain ⟨rfl, rfl⟩ := belongs; exact ⟨rfl, rfl, rfl⟩
        · obtain ⟨number, hn⟩ := belongs; cases hn
      obtain ⟨rfl, rfl, rfl⟩ := here
      refine ⟨_, list?_place new.new hl, ?_⟩
      rw [hid]
      exact slot?_place h hl hi empty id
    · rw [node?_register_other hid] at hs
      obtain ⟨l', hl', hi'⟩ := h.owned owner' step hs
      refine owned_update owner kind (fun l => (l.grows_fill i id).slots) ⟨l', ?_, hi'⟩
      rw [list?_register_other (branch_ne_of_new new.new hl')]
      exact hl'

end Place

end RunReport.Session
