import RunReport.Proofs.Making
/-!
# What making a node gives

The child at a place is made exactly when the source has it there, it is what the source says, and a
failure is the one the source gives. The same holds of the last keyword of a suite, and so of what
is known about failed teardowns.
-/

namespace RunReport

open Effects

namespace Session

variable {s s' : Session}

/-- What is registered besides the nodes there were. -/
def Adds (s s' : Session) (new : NodeId → Prop) : Prop :=
  ∀ id, (s'.node? id).isSome → (s.node? id).isSome ∨ new id

/-- Two steps add what each of them adds. -/
theorem Adds.trans {s'' : Session} {new new' : NodeId → Prop} (h : s.Adds s' new)
    (h' : s'.Adds s'' new') (more : ∀ id, new' id → new id) : s.Adds s'' new := by
  intro id hid
  rcases h' id hid with old | fresh
  · exact h id old
  · exact .inr (more id fresh)

theorem Adds.unregistered {new : NodeId → Prop} (h : s.Adds s' new) {id : NodeId}
    (unregistered : s.node? id = none) (other : ¬ new id) : s'.node? id = none := by
  rw [← Option.not_isSome_iff_eq_none]
  intro registered
  rcases h id registered with old | fresh
  · rw [unregistered] at old
    cases old
  · exact other fresh

theorem view_made {owner : Route} {kind : NodeKind} {l : ChildList}
    (hl : s.list? owner kind = some l) : (made owner kind).view s = l.made := by
  simp [made, hl]

theorem list?_measure {owner : Route} {kind : NodeKind} {l : ChildList}
    (hl : s.list? owner kind = some l) :
    ((made owner kind).update (·.measure) s).list? owner kind =
      some { l with made := l.made.measure } := by
  rw [list?_update, if_pos ⟨rfl, rfl⟩, hl]
  rfl

theorem checkOpen_run (h : s.isOpen = true) : checkOpen.run s = (.ok (), s) := by
  simp only [checkOpen, run_bind, run_get, h]
  rfl

theorem exists?_run (id : NodeId) : (exists? id).run s = (.ok (s.node? id).isSome, s) := rfl

/-- What making a node does: it reads, and if it can be read the node is registered. -/
def Makes (s : Session) (id : NodeId) (read : Except Error Plain) (new : NodeId → Prop)
    (x : Run NodeId) : Prop :=
  ∃ s', s'.Consistent ∧ s.Explores s' ∧ s.Adds s' new ∧
    x.run s = match read with
      | .ok p => (.ok id, register id p.node s'.messageCount s')
      | .error e => (.error e, s')

theorem Makes.mono {id : NodeId} {read : Except Error Plain} {new new' : NodeId → Prop}
    {x : Run NodeId} (h : s.Makes id read new x) (more : ∀ id, new id → new' id) :
    s.Makes id read new' x := by
  obtain ⟨s', consistent, explores, adds, run⟩ := h
  exact ⟨s', consistent, explores, fun id hid => (adds id hid).imp_right (more id), run⟩

theorem Refreshes.adds (h : s.Refreshes s') (new : NodeId → Prop) : s.Adds s' new := by
  intro id hid
  rw [h.node?] at hid
  exact .inl hid

theorem pathBase_of_plain {n : Node} {p : Plain} (h : n.plain? = some p) :
    n.pathBase = p.pathBase := by
  cases n <;> cases h <;> rfl

theorem decodeKeyword_makes (h : s.Consistent) {owner : Route} {n : Node} {p : Plain}
    (hn : s.branch? owner = some n) (hp : n.plain? = some p) (r : Raw) (t : TableRef) (i : Nat)
    (new : s.node? (.branch (.child owner ⟨.keyword, i⟩)) = none) :
    s.Makes (.branch (.child owner ⟨.keyword, i⟩)) (s.source.readKeyword p r t i) (fun _ => False)
      (decodeKeyword owner r t i) := by
  obtain ⟨s', hrun, refreshes⟩ := withTable_run h t (s.coding.steady_keyword r)
  refine ⟨s', refreshes.consistent, refreshes.explores, refreshes.adds _, ?_⟩
  have coding : s.source.coding = s.coding := rfl
  simp only [decodeKeyword, run_bind, checkOpen_run h.isOpen, exists?_run, new, Option.isSome_none,
    Bool.false_eq_true, if_false, run_get, hrun, Source.readKeyword, coding]
  cases s.source.readIn t (s.coding.keyword r) with
  | error e => rfl
  | ok record =>
    simp only [run_modify, run_pure, hn, Option.map_some, Option.getD_some, pathBase_of_plain hp]
    rfl

/-- A slot is empty while its node is not registered. -/
theorem Consistent.slot_empty (h : s.Consistent) {owner : Route} {b : Branch} {l : ChildList}
    {i : Nat} (hl : s.list? owner b.kind = some l)
    (new : s.node? (.branch (.child owner ⟨b, i⟩)) = none) : l.made.slot? i = none := by
  cases hs : l.made.slot? i with
  | none => rfl
  | some id =>
    obtain ⟨belongs, registered⟩ := h.filled owner b.kind l i id hl hs
    rw [belongs_branch.1 belongs, new] at registered
    cases registered

theorem Consistent.not_registered (h : s.Consistent) {owner : Route} {b : Branch} {l : ChildList}
    {i : Nat} (hl : s.list? owner b.kind = some l) (empty : l.made.slot? i = none) :
    s.node? (.branch (.child owner ⟨b, i⟩)) = none := by
  cases hn : s.node? (.branch (.child owner ⟨b, i⟩)) with
  | none => rfl
  | some n =>
    obtain ⟨l', hl', hs⟩ := h.owned owner ⟨b, i⟩ (by rw [branch?, hn]; rfl)
    rw [hl] at hl'
    cases hl'
    rw [empty] at hs
    cases hs

/-- What asking for a child gives: the id of the child if the source has one, and the failure of the
source otherwise. -/
structure Finds (s s' : Session) (id : NodeId) (read : Except Error (Option Plain))
    (result : Except Error (Option NodeId)) : Prop where
  consistent : s'.Consistent
  explores : s.Explores s'
  result : result = read.map (Option.map fun _ => id)
  registered : ∀ p, read = .ok (some p) → ∃ n, s'.node? id = some n ∧ n.plain? = some p

section Get

variable {owner : Route} {b : Branch} {l : ChildList} {n : Node} {p : Plain} {i : Nat}
  {decode : Route → Raw → TableRef → Nat → Run NodeId} {new : NodeId → Prop}

/-- Registering a node that was read and putting it into its slot. -/
theorem place_makes {r : Raw} {t : TableRef} {q : Plain} (h' : s'.Consistent)
    (e : s.Explores s') (hl : s.list? owner b.kind = some l) (hi : i < l.items.length)
    (hp : s.source.node? owner = .ok (some p))
    (record : s.source.record? p ⟨b, i⟩ = some (r, t))
    (read : s.source.readChild p ⟨b, i⟩ r t = .ok q)
    (unregistered : s'.node? (.branch (.child owner ⟨b, i⟩)) = none) :
    let id := NodeId.branch (.child owner ⟨b, i⟩)
    let s'' := place owner b.kind i id q.node s'.messageCount s'
    s''.Consistent ∧ s'.Explores s'' ∧ ((made owner b.kind).view s'').slot? i = some id ∧
      s''.node? id = some q.node := by
  obtain ⟨l', hl', items, -⟩ := e.lists owner b.kind l hl
  have empty := h'.slot_empty hl' unregistered
  have inside : i < l'.items.length := by rw [items]; exact hi
  have found : s'.source.node? (.child owner ⟨b, i⟩) = .ok (some q) := by
    rw [e.source, Source.node?_child_of hp]
    exact Source.child?_eq_some.2 ⟨r, t, record, read⟩
  have registrable : s'.Registrable (.branch (.child owner ⟨b, i⟩)) q.node s'.messageCount := by
    refine ⟨unregistered, fun kind l hl => Plain.slot?_node hl, ?_, fun _ h => (by cases h)⟩
    rintro r ⟨⟩
    exact ⟨rfl, q, found, q.follows_node _⟩
  have noMessage : b.kind ≠ .message := by cases b <;> simp [Branch.kind]
  refine ⟨h'.place registrable hl' inside empty (belongs_branch.2 rfl)
    fun message => absurd message noMessage, explores_place unregistered, ?_, ?_⟩
  · rw [view_made (list?_place unregistered hl')]
    exact slot?_place h' hl' inside empty _
  · rw [place, node?_update, if_neg (branch_ne_of_new unregistered hl').symm,
      node?_register_new unregistered]

theorem adds_place {kind : NodeKind} {id : NodeId} {q : Node} {count : Nat} :
    s.Adds (place owner kind i id q count s) (· = id) := by
  intro id' hid
  rw [place, isSome_update] at hid
  by_cases same : id' = id
  · exact .inr same
  · rw [node?_register_other same] at hid
    exact .inl hid

theorem adds_measure (owner : Route) (kind : NodeKind) (new : NodeId → Prop) :
    s.Adds ((made owner kind).update (·.measure) s) new := by
  intro id hid
  rw [isSome_update] at hid
  exact .inl hid

theorem createWith_run {items : List Raw} {t : TableRef} {made : LazyList NodeId}
    (hl : s.list? owner b.kind = some ⟨items, t, made⟩) {r : Raw} (hr : items[i]? = some r) :
    (createWith decode owner b.kind i).run s = (decode owner r t i).run s := by
  simp only [createWith, run_bind, run_get, hl, hr]

/-- A child that is in its slot. -/
theorem finds_filled (h : s.Consistent) (hl : s.list? owner b.kind = some l)
    (hp : s.source.node? owner = .ok (some p)) {id : NodeId} (hs : l.made.slot? i = some id)
    (h' : s'.Consistent) (e : s.Explores s') :
    s.Finds s' (.branch (.child owner ⟨b, i⟩)) (s.source.child? p ⟨b, i⟩) (.ok (some id)) := by
  obtain ⟨belongs, registered⟩ := h.filled owner b.kind l i id hl hs
  rw [belongs_branch.1 belongs] at registered ⊢
  obtain ⟨m, hm⟩ := Option.isSome_iff_exists.1 registered
  obtain ⟨q, hq, hfq⟩ := h.follows _ m hm
  rw [Source.node?_child_of hp] at hq
  refine ⟨h', e, ?_, ?_⟩
  · rw [hq]
    rfl
  · intro q' hq'
    rw [hq] at hq'
    cases hq'
    obtain ⟨m', hm', hpm, -⟩ := e.nodes _ m hm
    exact ⟨m', hm', hpm.trans hfq.plain⟩

theorem get_finds (h : s.Consistent) (hn : s.branch? owner = some n) (hf : n.Follows s.source p)
    (hp : s.source.node? owner = .ok (some p)) (hl : n.list? b.kind = some l)
    (makes : ∀ r t s₀, s₀.Consistent → s.Explores s₀ →
      s₀.node? (.branch (.child owner ⟨b, i⟩)) = none →
      s₀.Makes (.branch (.child owner ⟨b, i⟩)) (s₀.source.readChild p ⟨b, i⟩ r t) new
        (decode owner r t i))
    (other : ¬ new (.branch (.child owner ⟨b, i⟩))) :
    ∃ s' result, ((made owner b.kind).get (createWith decode owner b.kind) i).run s = (result, s') ∧
      s.Finds s' (.branch (.child owner ⟨b, i⟩)) (s.source.child? p ⟨b, i⟩) result ∧
      s.Adds s' (fun id => id = .branch (.child owner ⟨b, i⟩) ∨ new id) := by
  have hl' : s.list? owner b.kind = some l := (list?_of_branch _ hn _).trans hl
  obtain ⟨items, t, hi, reads⟩ := hf.listed _ _ hl
  have consistent₀ := consistent_measure h owner b.kind
  have explores₀ := explores_measure s owner b.kind
  have adds₀ := adds_measure (s := s) owner b.kind
    (fun id => id = .branch (.child owner ⟨b, i⟩) ∨ new id)
  have hl₀ := list?_measure hl'
  rw [Place.get_run, view_made hl₀]
  simp only [show l.made.measure.length = l.made.length from rfl, LazyList.slot?_measure, reads.length]
  generalize hs₀ : (made owner b.kind).update (·.measure) s = s₀ at *
  cases hr : items[i]? with
  | none =>
    have outside : ¬ i < items.length := by
      have := List.getElem?_eq_none_iff.1 hr
      omega
    have none : s.source.child? p ⟨b, i⟩ = .ok none := by
      simp [Source.child?, Source.record?, hi, hr]
    rw [if_neg outside, none]
    exact ⟨s₀, .ok .none, rfl, ⟨consistent₀, explores₀, rfl, fun _ h => (by cases h)⟩, adds₀⟩
  | some r =>
    have inside : i < items.length := (List.getElem?_eq_some_iff.1 hr).1
    have record : s.source.record? p ⟨b, i⟩ = some (r, t) := Source.record?_eq_some.2 ⟨items, hi, hr⟩
    have read : s.source.child? p ⟨b, i⟩ = some <$> s.source.readChild p ⟨b, i⟩ r t := by
      simp only [Source.child?, record]
    rw [if_pos inside]
    cases hs : l.made.slot? i with
    | some id => exact ⟨s₀, _, rfl, finds_filled h hl' hp hs consistent₀ explores₀, adds₀⟩
    | none =>
      have unregistered₀ : s₀.node? (.branch (.child owner ⟨b, i⟩)) = .none :=
        consistent₀.not_registered hl₀ hs
      obtain ⟨s₁, consistent₁, explores₁, adds₁, run₁⟩ :=
        makes r t s₀ consistent₀ explores₀ unregistered₀
      have hitems : { l with made := l.made.measure }.items[i]? = some r := by
        rw [reads.items]; exact hr
      have adds := adds₀.trans adds₁ fun _ => .inr
      rw [createWith_run hl₀ hitems, reads.table, run₁, explores₀.source, read]
      cases hread : s.source.readChild p ⟨b, i⟩ r t with
      | error e =>
        exact ⟨s₁, .error e, rfl, ⟨consistent₁, explores₀.trans explores₁, rfl,
          fun _ h => (by cases h)⟩, adds⟩
      | ok q =>
        have unregistered₁ := adds₁.unregistered unregistered₀ other
        have inside' : i < l.items.length := by rw [reads.items]; exact inside
        obtain ⟨consistent₂, explores₂, hslot, hnode⟩ := place_makes consistent₁
          (explores₀.trans explores₁) hl' inside' hp record hread unregistered₁
        refine ⟨_, .ok (some _), ?_, ⟨consistent₂, (explores₀.trans explores₁).trans explores₂, rfl,
          ?_⟩, adds.trans adds_place fun _ => .inl⟩
        · exact congrArg (fun x => (Except.ok x, _)) hslot
        · rintro q' ⟨⟩
          exact ⟨_, hnode, q.plain?_node⟩

end Get

/-! ## Teardowns -/

/-- A registered node seen later, when more has been read. -/
theorem Explores.branch? (e : s.Explores s') {r : Route} {n : Node} {p : Plain}
    (hn : s.branch? r = some n) (hp : n.plain? = some p) :
    ∃ n', s'.branch? r = some n' ∧ n'.plain? = some p := by
  obtain ⟨n', hn', hp', -⟩ := e.nodes _ n hn
  exact ⟨n', hn', hp'.trans hp⟩

theorem keyword_finds (h : s.Consistent) {owner : Route} {n : Node} {p : Plain} {l : ChildList}
    (hn : s.branch? owner = some n) (hf : n.Follows s.source p)
    (hp : s.source.node? owner = .ok (some p)) (hl : n.list? .keyword = some l) (i : Nat) :
    ∃ s' result, ((made owner .keyword).get (createKeyword owner) i).run s = (result, s') ∧
      s.Finds s' (.branch (.child owner ⟨.keyword, i⟩)) (s.source.child? p ⟨.keyword, i⟩) result ∧
      s.Adds s' (fun id => id = .branch (.child owner ⟨.keyword, i⟩) ∨ False) := by
  refine get_finds (b := .keyword) h hn hf hp hl ?_ id
  intro r t s₀ consistent₀ explores₀ unregistered
  obtain ⟨n₀, hn₀, hp₀⟩ := explores₀.branch? hn hf.plain
  exact decodeKeyword_makes consistent₀ hn₀ hp₀ r t i unregistered

theorem Explores.follows (e : s.Explores s') (after : s'.Consistent)
    {r : Route} {n : Node} {p : Plain} (hn : s.branch? r = some n) (hf : n.Follows s.source p) :
    ∃ n', s'.branch? r = some n' ∧ n'.Follows s'.source p ∧
      s'.source.node? r = .ok (some p) := by
  obtain ⟨n', hn', hp'⟩ := e.branch? hn hf.plain
  obtain ⟨p', hr', hf'⟩ := after.follows r n' hn'
  rw [hf'.plain] at hp'
  cases hp'
  exact ⟨n', hn', hf', hr'⟩

/-- The last keyword is found like any other; a node without keywords has none. -/
theorem lastKeyword_finds (h : s.Consistent) {owner : Route} {n : Node} {p : Plain} {l : ChildList}
    (hn : s.branch? owner = some n) (hf : n.Follows s.source p)
    (hl : n.list? .keyword = some l) :
    ∃ s' result, (lastKeyword owner).run s = (result, s') ∧ s'.Consistent ∧ s.Explores s' ∧
      s.Adds s' (fun id => ∃ i, id = .branch (.child owner ⟨.keyword, i⟩)) ∧
      match l.items.length with
      | 0 => result = .ok none
      | k + 1 =>
        s.Finds s' (.branch (.child owner ⟨.keyword, k⟩)) (s.source.child? p ⟨.keyword, k⟩) result := by
  have hl' : s.list? owner .keyword = some l := (list?_of_branch _ hn _).trans hl
  obtain ⟨items, t, hi, reads⟩ := hf.listed _ _ hl
  have consistent₀ := consistent_measure h owner .keyword
  have explores₀ := explores_measure s owner .keyword
  have adds₀ := adds_measure (s := s) owner .keyword
    (fun id => ∃ i, id = .branch (.child owner ⟨.keyword, i⟩))
  have hl₀ := list?_measure hl'
  simp only [lastKeyword, Place.last_run, view_made hl₀, reads.items,
    show l.made.measure.length = l.made.length from rfl, reads.length]
  generalize (made owner .keyword).update (·.measure) s = s₀ at *
  cases items.length with
  | zero => exact ⟨s₀, _, rfl, consistent₀, explores₀, adds₀, rfl⟩
  | succ k =>
    obtain ⟨n₀, hn₀, hf₀, hp₀⟩ := explores₀.follows consistent₀ hn hf
    rw [list?_of_branch _ hn₀] at hl₀
    obtain ⟨s₁, result, run₁, finds, adds₁⟩ := keyword_finds consistent₀ hn₀ hf₀ hp₀ hl₀ k
    rw [explores₀.source] at finds
    have explores₁ := explores₀.trans finds.explores
    refine ⟨s₁, result, run₁, finds.consistent, explores₁, adds₀.trans adds₁ ?_,
      ⟨finds.consistent, explores₁, finds.result, finds.registered⟩⟩
    rintro id (same | impossible)
    · exact ⟨k, same⟩
    · cases impossible

theorem isFailedTeardown_of_plain {n : Node} {r : KeywordRecord} {path : String} {t : TableRef}
    (h : n.plain? = some (.keyword r path t)) :
    isFailedTeardown (some n) = Source.isFailedTeardown r := by
  cases n <;> cases h
  rfl

/-- The last keyword of a suite is made to see whether it is a failed teardown. -/
theorem hasTeardownFailure_run (h : s.Consistent) {owner : Route} {n : Node} {p : Plain}
    (hn : s.branch? owner = some n) (hplain : n.plain? = some p) :
    ∃ s', (hasTeardownFailure owner).run s = (s.source.teardownFailure p, s') ∧ s'.Consistent ∧
      s.Explores s' ∧ s.Adds s' (fun id => ∃ i, id = .branch (.child owner ⟨.keyword, i⟩)) := by
  have stays : s.Adds s (fun id => ∃ i, id = .branch (.child owner ⟨.keyword, i⟩)) :=
    fun _ => .inl
  simp only [hasTeardownFailure, run_bind, run_get, hn]
  cases n with
  | test t => cases hplain; exact ⟨s, rfl, h, .refl s, stays⟩
  | keyword k => cases hplain; exact ⟨s, rfl, h, .refl s, stays⟩
  | message m => cases hplain
  | suite su =>
    cases hplain
    simp only [Source.teardownFailure]
    cases su.aboveFailed with
    | true => exact ⟨s, rfl, h, .refl s, stays⟩
    | false =>
      obtain ⟨p, hp, hf⟩ := h.follows owner _ hn
      cases hf.plain
      obtain ⟨items, t, hi, reads⟩ := hf.listed .keyword su.keywords rfl
      simp only [Source.items?, Option.some.injEq, Prod.mk.injEq] at hi
      obtain ⟨rfl, rfl⟩ := hi
      obtain ⟨s₁, result, run₁, consistent₁, explores₁, adds₁, finds⟩ :=
        lastKeyword_finds h hn hf (l := su.keywords) rfl
      rw [reads.items] at finds
      simp only [Bool.false_eq_true, if_false, run_bind, run₁]
      cases hlen : su.record.keywords.length with
      | zero =>
        rw [hlen] at finds
        rw [finds, List.length_eq_zero_iff.1 hlen]
        exact ⟨s₁, rfl, consistent₁, explores₁, adds₁⟩
      | succ k =>
        rw [hlen] at finds
        obtain ⟨r, hr⟩ : ∃ r, su.record.keywords[k]? = some r :=
          ⟨_, List.getElem?_eq_getElem (by omega)⟩
        have hlast : su.record.keywords.getLast? = some r := by
          rw [List.getLast?_eq_getElem?, hlen]
          exact hr
        have read : s.source.child? (.suite su.record su.fullName su.aboveFailed su.table)
            ⟨.keyword, k⟩ = some <$> s.source.readKeyword
              (.suite su.record su.fullName su.aboveFailed su.table) r su.table k := by
          simp [Source.child?, Source.record?, Source.items?, Branch.kind, hr, Source.readChild]
        have hresult := finds.result
        have hregistered := finds.registered
        simp only [read, Source.readKeyword] at hresult hregistered
        simp only [hlast]
        cases hrec : s.source.readIn su.table (s.source.coding.keyword r) with
        | error e =>
          rw [hrec] at hresult
          rw [hresult]
          exact ⟨s₁, rfl, consistent₁, explores₁, adds₁⟩
        | ok record =>
          rw [hrec] at hresult hregistered
          obtain ⟨m, hm, hplain⟩ := hregistered _ rfl
          rw [hresult]
          refine ⟨s₁, ?_, consistent₁, explores₁, adds₁⟩
          simp only [Except.map, ← isFailedTeardown_of_plain hplain, ← hm]
          rfl

/-! ## Tests and suites -/

theorem fullNameBelow_of_plain {n : Node} {p : Plain} (h : n.plain? = some p) (name : String) :
    fullNameBelow (some n) name = p.nameBelow name := by
  cases n <;> cases h <;> rfl

theorem Refreshes.teardown (e : s.Refreshes s') {owner : Route} {n : Node} {p : Plain}
    (hn : s.branch? owner = some n) (hp : n.plain? = some p) :
    ∃ s'' n', (hasTeardownFailure owner).run s' = (s.source.teardownFailure p, s'') ∧
      s''.Consistent ∧ s.Explores s'' ∧ s''.branch? owner = some n' ∧ n'.plain? = some p ∧
      s.Adds s'' (fun id => ∃ i, id = .branch (.child owner ⟨.keyword, i⟩)) := by
  have hn' : s'.branch? owner = some n := (e.node? _).trans hn
  obtain ⟨s'', run, consistent, explores, adds⟩ := hasTeardownFailure_run e.consistent hn' hp
  obtain ⟨n', hn'', hp'⟩ := explores.branch? hn' hp
  rw [e.explores.source] at run
  exact ⟨s'', n', run, consistent, e.explores.trans explores, hn'', hp',
    (e.adds _).trans adds fun _ => id⟩

/-- Makes a node below `owner` from its record: whether a teardown above it failed is asked for once
the record has been read, and what it is below is looked at last. -/
def decodeUnder {α : Type} (owner : Route) (id : NodeId) (table : TableRef)
    (read : Coding → Lookup α) (node : α → Bool → Option Node → Node) : Run NodeId := do
  checkOpen
  if ← exists? id then return id
  else
    let record ← withTable table (read (← get).coding)
    let aboveFailed ← hasTeardownFailure owner
    let above := (← get).branch? owner
    modify (insertNode id (node record aboveFailed above))
    return id

theorem decodeTest_eq (owner : Route) (r : Raw) (table : TableRef) (i : Nat) :
    decodeTest owner r table i =
      decodeUnder owner (.branch (.child owner ⟨.test, i⟩)) table (·.test r)
        fun record aboveFailed above => .test
          { record, fullName := fullNameBelow above record.name, aboveFailed, table
            keywords := .ofSource record.keywords table } := rfl

theorem decodeSuite_eq (owner : Route) (r : Raw) (table : TableRef) (i : Nat) :
    decodeSuite owner r table i =
      decodeUnder owner (.branch (.child owner ⟨.suite, i⟩)) table (·.suite r)
        fun record aboveFailed above => .suite
          { record, fullName := fullNameBelow above record.name, aboveFailed, table
            suites := .ofItems record.suites table
            tests := .ofItems record.tests table
            keywords := .ofItems record.keywords table } := rfl

/-- What is made below a node is what `plain` says of the record and of the teardowns above it. -/
theorem decodeUnder_makes {α : Type} (h : s.Consistent) {owner : Route} {n : Node} {p : Plain}
    (hn : s.branch? owner = some n) (hp : n.plain? = some p) (t : TableRef)
    {read : Coding → Lookup α} (steady : Lookup.Steady (read s.coding))
    {node : α → Bool → Option Node → Node} (plain : α → Bool → Plain)
    (agrees : ∀ record failed m, m.plain? = some p →
      node record failed (some m) = (plain record failed).node)
    {id : NodeId} (new : s.node? id = none) :
    s.Makes id
      (do return plain (← s.source.readIn t (read s.coding)) (← s.source.teardownFailure p))
      (fun id => ∃ i, id = .branch (.child owner ⟨.keyword, i⟩))
      (decodeUnder owner id t read node) := by
  obtain ⟨s₁, run₁, refreshes⟩ := withTable_run h t steady
  obtain ⟨s₂, n₂, run₂, consistent₂, explores₂, hn₂, hp₂, adds₂⟩ := refreshes.teardown hn hp
  simp only [Makes, decodeUnder, run_bind, checkOpen_run h.isOpen, exists?_run, new,
    Option.isSome_none, Bool.false_eq_true, if_false, run_get, run₁]
  cases s.source.readIn t (read s.coding) with
  | error e => exact ⟨s₁, refreshes.consistent, refreshes.explores, refreshes.adds _, rfl⟩
  | ok record =>
    refine ⟨s₂, consistent₂, explores₂, adds₂, ?_⟩
    simp only [run₂]
    cases s.source.teardownFailure p with
    | error e => rfl
    | ok failed =>
      simp only [run_modify, run_pure, hn₂, agrees record failed n₂ hp₂]
      rfl

theorem decodeTest_makes (h : s.Consistent) {owner : Route} {n : Node} {p : Plain}
    (hn : s.branch? owner = some n) (hp : n.plain? = some p) (r : Raw) (t : TableRef) (i : Nat)
    (new : s.node? (.branch (.child owner ⟨.test, i⟩)) = none) :
    s.Makes (.branch (.child owner ⟨.test, i⟩)) (s.source.readTest p r t)
      (fun id => ∃ i, id = .branch (.child owner ⟨.keyword, i⟩)) (decodeTest owner r t i) := by
  rw [decodeTest_eq]
  refine decodeUnder_makes h hn hp t (s.coding.steady_test r)
    (fun record failed => .test record (p.nameBelow record.name) failed t) ?_ new
  intro record failed m hm
  rw [fullNameBelow_of_plain hm]
  rfl

theorem decodeSuite_makes (h : s.Consistent) {owner : Route} {n : Node} {p : Plain}
    (hn : s.branch? owner = some n) (hp : n.plain? = some p) (r : Raw) (t : TableRef) (i : Nat)
    (new : s.node? (.branch (.child owner ⟨.suite, i⟩)) = none) :
    s.Makes (.branch (.child owner ⟨.suite, i⟩)) (s.source.readSuite (some p) r t)
      (fun id => ∃ i, id = .branch (.child owner ⟨.keyword, i⟩)) (decodeSuite owner r t i) := by
  rw [decodeSuite_eq]
  refine decodeUnder_makes h hn hp t (s.coding.steady_suite r)
    (fun record failed => .suite record (p.nameBelow record.name) failed t) ?_ new
  intro record failed m hm
  rw [fullNameBelow_of_plain hm]
  rfl

/-- The child that a step leads to, in a list that is there. -/
theorem childAt_finds (h : s.Consistent) {owner : Route} {n : Node} {p : Plain} {b : Branch}
    {l : ChildList} (hn : s.branch? owner = some n) (hf : n.Follows s.source p)
    (hp : s.source.node? owner = .ok (some p)) (hl : n.list? b.kind = some l) (i : Nat) :
    ∃ s' result, (childAt owner b.kind i).run s = (result, s') ∧
      s.Finds s' (.branch (.child owner ⟨b, i⟩)) (s.source.child? p ⟨b, i⟩) result ∧
      s.Adds s' (fun id => id = .branch (.child owner ⟨b, i⟩) ∨
        b ≠ .keyword ∧ ∃ j, id = .branch (.child owner ⟨.keyword, j⟩)) := by
  refine get_finds h hn hf hp hl ?_ (by simp)
  intro r t s₀ consistent₀ explores₀ unregistered
  obtain ⟨n₀, hn₀, hp₀⟩ := explores₀.branch? hn hf.plain
  cases b with
  | suite =>
    exact (decodeSuite_makes consistent₀ hn₀ hp₀ r t i unregistered).mono
      fun _ hid => ⟨by simp, hid⟩
  | test =>
    exact (decodeTest_makes consistent₀ hn₀ hp₀ r t i unregistered).mono
      fun _ hid => ⟨by simp, hid⟩
  | keyword =>
    exact (decodeKeyword_makes consistent₀ hn₀ hp₀ r t i unregistered).mono
      fun _ hid => hid.elim

end Session

end RunReport
