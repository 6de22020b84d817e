import RunReport.Proofs.Listing
import RunReport.Session.Preload
/-!
# All children of a node

Whoever lists the children of a kind is given all of them, in order, or the failure of the first one
that cannot be read. Each of those that are listed is registered.
-/

namespace RunReport.Session

open Effects

variable {s s' : Session} {r : Route} {p : Plain} {b : Branch} {items : List Raw} {t : TableRef}

theorem Explores.listed (e : s.Explores s') {kind : NodeKind} (h : (s.list? r kind).isSome) :
    (s'.list? r kind).isSome := by
  obtain ⟨l, hl⟩ := Option.isSome_iff_exists.1 h
  obtain ⟨n, hn, hl⟩ := (list?_eq_some s).1 hl
  obtain ⟨n', hn', -, -, same⟩ := e.nodes _ n hn
  rw [list?_of_branch s' hn' kind, same kind, hl]
  rfl

/-- The ids of the children at these places. -/
def childIds (r : Route) (b : Branch) (is : List Nat) : List NodeId :=
  is.map fun i => .branch (.child r ⟨b, i⟩)

theorem child?_ne_none {src : Source} (hi : src.items? p b.kind = some (items, t)) {i : Nat}
    (inside : i < items.length) : src.child? p ⟨b, i⟩ ≠ .ok none := by
  simp only [Source.child?, Source.record?, hi, List.getElem?_eq_getElem inside, Option.map_some]
  cases src.readChild p ⟨b, i⟩ items[i] t <;> simp [Functor.map, Except.map]

/-- What comes of listing children at some places. -/
structure Lists (s s' : Session) (r : Route) (p : Plain) (b : Branch) (is : List Nat)
    (result : Except Error (List NodeId)) : Prop where
  consistent : s'.Consistent
  explores : s.Explores s'
  all : ∀ ids, result = .ok ids → ids = childIds r b is ∧ ∀ id ∈ ids, (s'.node? id).isSome
  found : (∀ i ∈ is, ∃ c, s.source.child? p ⟨b, i⟩ = .ok (some c)) → ∃ ids, result = .ok ids

theorem itemsAt_lists (h : s.Consistent) (hp : s.source.node? r = .ok (some p))
    (hi : s.source.items? p b.kind = some (items, t)) (listed : (s.list? r b.kind).isSome)
    {is : List Nat} (inside : ∀ i ∈ is, i < items.length) :
    ∃ s' result, ((made r b.kind).itemsAt (create r b.kind) is).run s = (result, s') ∧
      s.Lists s' r p b is result := by
  induction is generalizing s with
  | nil =>
    refine ⟨s, .ok [], rfl, h, .refl s, ?_, fun _ => ⟨[], rfl⟩⟩
    rintro ids ⟨⟩
    exact ⟨rfl, fun id hid => by cases hid⟩
  | cons i is ih =>
    obtain ⟨l, hl⟩ := Option.isSome_iff_exists.1 listed
    obtain ⟨n, q, -, -, hn, hl, hf, hq, -⟩ := h.list hl
    cases hp.symm.trans hq
    obtain ⟨s₁, first, run, finds, -⟩ := childAt_finds h hn hf hp hl i
    have e := finds.explores
    obtain ⟨s₂, later, run₂, lists⟩ := ih finds.consistent (e.source ▸ hp) (e.source ▸ hi)
      (e.listed listed) fun j hj => inside j (by simp [hj])
    have there := child?_ne_none hi (inside i (by simp))
    have whole : ((made r b.kind).itemsAt (create r b.kind) (i :: is)).run s =
        (childAt r b.kind i >>= fun item => (made r b.kind).itemsAt (create r b.kind) is >>=
          fun rest => pure (item.toList ++ rest) : Run (List NodeId)).run s := rfl
    cases hc : s.source.child? p ⟨b, i⟩ with
    | error err =>
      have failed : first = .error err := by rw [finds.result, hc]; rfl
      rw [failed] at run
      refine ⟨s₁, .error err, whole.trans (run_bind_error run), finds.consistent, e,
        fun ids hids => (by cases hids), fun readable => ?_⟩
      obtain ⟨c, hc'⟩ := readable i (by simp)
      rw [hc] at hc'
      cases hc'
    | ok found =>
      cases found with
      | none => exact absurd hc there
      | some c =>
        have child : first = .ok (some (.branch (.child r ⟨b, i⟩))) := by rw [finds.result, hc]; rfl
        rw [child] at run
        have onward := whole.trans (run_bind_ok run)
        obtain ⟨n', hn', -⟩ := finds.registered c hc
        cases later with
        | error err =>
          refine ⟨s₂, .error err, onward.trans (run_bind_error run₂), lists.consistent,
            e.trans lists.explores, fun ids hids => (by cases hids), fun readable => ?_⟩
          obtain ⟨rest, hrest⟩ := lists.found fun j hj => by
            rw [e.source]
            exact readable j (by simp [hj])
          cases hrest
        | ok rest =>
          refine ⟨s₂, .ok (.branch (.child r ⟨b, i⟩) :: rest), onward.trans (run_bind_ok run₂),
            lists.consistent, e.trans lists.explores, ?_, fun _ => ⟨_, rfl⟩⟩
          rintro ids ⟨⟩
          obtain ⟨rfl, registered⟩ := lists.all rest rfl
          refine ⟨rfl, fun id hid => ?_⟩
          rcases List.mem_cons.1 hid with rfl | hid
          · exact lists.explores.extends.isSome (by rw [hn']; rfl)
          · exact registered id hid

/-- All children of a kind. -/
theorem childList_lists (h : s.Consistent) (hp : s.source.node? r = .ok (some p))
    (hi : s.source.items? p b.kind = some (items, t)) (listed : (s.list? r b.kind).isSome) :
    ∃ s' result, (childList r b.kind).run s = (result, s') ∧
      s.Lists s' r p b (List.range items.length) result := by
  obtain ⟨l, hl⟩ := Option.isSome_iff_exists.1 listed
  obtain ⟨n, q, items', t', -, -, -, hq, hi', reads⟩ := h.list hl
  cases hp.symm.trans hq
  cases hi.symm.trans hi'
  have measured := list?_measure hl
  have e : s.Explores ((made r b.kind).update (·.measure) s) := explores_measure s r b.kind
  have length : ((made r b.kind).view ((made r b.kind).update (·.measure) s)).length =
      items.length := by
    rw [view_made measured]
    exact reads.length
  obtain ⟨s', result, run, lists⟩ := itemsAt_lists (consistent_measure h r b.kind) (e.source ▸ hp)
    (e.source ▸ hi) (e.listed listed) fun i hi => List.mem_range.1 hi
  have gathers : (gathered r b.kind).run s = (result, s') := by
    rw [gathered, Place.gather_run, length, run]
  obtain ⟨u, whole, consistent, settles⟩ := childList_gathers h r b.kind
  rw [gathers] at whole settles
  refine ⟨u, result, whole, consistent, (e.trans lists.explores).trans settles, fun ids given => ?_,
    e.source ▸ lists.found⟩
  obtain ⟨same, registered⟩ := lists.all ids given
  exact ⟨same, fun id hid => settles.extends.isSome (registered id hid)⟩

/-! ## Keywords among them -/

theorem filter_childIds (r : Route) (is : List Nat) :
    (childIds r .keyword is).filter isKeyword = childIds r .keyword is := by
  refine List.filter_eq_self.2 fun id hid => ?_
  obtain ⟨i, -, rfl⟩ := List.mem_map.1 hid
  rfl

/-- Children of a kind belong in the list of that kind. -/
theorem childList_placed (h : s.Consistent) {kind : NodeKind} {ids : List NodeId}
    (run : (childList r kind).run s = (.ok ids, s')) : ∀ id ∈ ids, ∃ i, Belongs r kind i id := by
  have placed : Tells s'.source (childList r kind) fun ids => ∀ id ∈ ids, ∃ i, Belongs r kind i id := by
    refine tells_childList_of fun i => ⟨(keeps_childAt r kind i).extends, ?_⟩
    rintro s h - found hfound id rfl
    exact ⟨i, (childAt_placed h hfound).1⟩
  have told := placed.result s h
  rw [run] at told
  exact told (.refl _) ids rfl

/-- Children of another kind are no keywords. -/
theorem childList_filter (h : s.Consistent) {kind : NodeKind} (other : kind ≠ .keyword)
    {ids : List NodeId} (run : (childList r kind).run s = (.ok ids, s')) :
    ids.filter isKeyword = [] := by
  refine List.filter_eq_nil_iff.2 fun id hid => ?_
  obtain ⟨i, belongs⟩ := childList_placed h run id hid
  cases kind with
  | suite => cases belongs; simp [isKeyword]
  | test => cases belongs; simp [isKeyword]
  | keyword => exact absurd rfl other
  | message =>
    obtain ⟨number, rfl⟩ := belongs
    simp [isKeyword]

/-- What the children of a suite, test or keyword are: nothing while its keywords are not there, and
otherwise all its keywords, in order and registered, among the rest. -/
def Spreads (s s' : Session) (r : Route) (p : Plain) : Option (List NodeId) → Prop
  | none => s.list? r .keyword = none
  | some ids => (s.list? r .keyword).isSome ∧ ∃ items t,
    s.source.items? p .keyword = some (items, t) ∧
    ids.filter isKeyword = childIds r .keyword (List.range items.length) ∧
    ∀ id ∈ ids.filter isKeyword, (s'.node? id).isSome

theorem keywords_spread (h : s.Consistent) {n : Node} (hn : s.branch? r = some n)
    (hf : n.Follows s.source p) (hp : s.source.node? r = .ok (some p))
    (listed : (s.list? r .keyword).isSome) {ids : List NodeId}
    (run : (childList r .keyword).run s = (.ok ids, s')) :
    s'.Consistent ∧ s.Explores s' ∧ s.Spreads s' r p (some ids) := by
  obtain ⟨l, hl⟩ := Option.isSome_iff_exists.1 listed
  rw [list?_of_branch s hn] at hl
  obtain ⟨items, t, hi, -⟩ := hf.listed .keyword l hl
  obtain ⟨u, result, run', lists⟩ := childList_lists (b := .keyword) h hp hi listed
  cases run.symm.trans run'
  obtain ⟨rfl, registered⟩ := lists.all ids rfl
  refine ⟨lists.consistent, lists.explores, listed, items, t, hi, filter_childIds r _, ?_⟩
  rw [filter_childIds]
  exact registered

theorem Spreads.later {s'' : Session} {ids more : List NodeId}
    (spreads : s.Spreads s' r p (some ids)) (e : s'.Extends s'')
    (others : more.filter isKeyword = []) : s.Spreads s'' r p (some (ids ++ more)) := by
  obtain ⟨listed, items, t, hi, all, registered⟩ := spreads
  have same : (ids ++ more).filter isKeyword = ids.filter isKeyword := by
    rw [List.filter_append, others, List.append_nil]
  exact ⟨listed, items, t, hi, same ▸ all, fun id hid => e.isSome (registered id (same ▸ hid))⟩

/-- Whoever asks for the children of a node is given its keywords. -/
theorem children_spread (h : s.Consistent) {n : Node} (hn : s.branch? r = some n)
    (hf : n.Follows s.source p) (hp : s.source.node? r = .ok (some p)) {found : Option (List NodeId)}
    (run : (children (.branch r)).run s = (.ok found, s')) :
    s'.Consistent ∧ s.Explores s' ∧ s.Spreads s' r p found := by
  have typed : ∀ {found s'}, (typedList (.branch r) .keyword).run s = (.ok found, s') →
      s'.Consistent ∧ s.Explores s' ∧ s.Spreads s' r p found := by
    intro found s' run
    simp only [typedList, run_bind, run_get] at run
    cases hl : s.list? r .keyword with
    | none =>
      rw [hl] at run
      cases run
      exact ⟨h, .refl s, hl⟩
    | some l =>
      rw [hl] at run
      obtain ⟨ids, t, run, done⟩ := run_bind_eq_ok.1 run
      cases done
      exact keywords_spread h hn hf hp (by rw [hl]; rfl) run
  have more : ∀ {s s' : Session} {kind : NodeKind} {ids}, s.Consistent → kind ≠ .keyword →
      (childList r kind).run s = (.ok ids, s') →
      s'.Consistent ∧ s.Explores s' ∧ ids.filter isKeyword = [] := by
    intro s s' kind ids h other run
    have kept := keeps_childList r kind s h
    rw [run] at kept
    exact ⟨kept.1, kept.2, childList_filter h other run⟩
  have plain := hf.plain
  have hn' : s.node? (.branch r) = some n := hn
  simp only [children, run_bind, run_get, hn'] at run
  cases n with
  | message m => cases plain
  | test t => exact typed run
  | suite su =>
    obtain ⟨keywords, s₁, run₁, run⟩ := run_bind_eq_ok.1 run
    obtain ⟨tests, s₂, run₂, run⟩ := run_bind_eq_ok.1 run
    obtain ⟨suites, s₃, run₃, done⟩ := run_bind_eq_ok.1 run
    cases done
    have listed : (s.list? r .keyword).isSome := by rw [list?_of_branch s hn]; rfl
    obtain ⟨h₁, e₁, spreads⟩ := keywords_spread h hn hf hp listed run₁
    obtain ⟨h₂, e₂, tests⟩ := more h₁ (by simp) run₂
    obtain ⟨h₃, e₃, suites⟩ := more h₂ (by simp) run₃
    refine ⟨h₃, (e₁.trans e₂).trans e₃, ?_⟩
    rw [List.append_assoc]
    refine spreads.later (e₂.trans e₃).extends ?_
    rw [List.filter_append, tests, suites]
    rfl
  | keyword k =>
    obtain ⟨found', s₁, run₁, run⟩ := run_bind_eq_ok.1 run
    obtain ⟨h₁, e₁, spreads⟩ := typed run₁
    cases found' with
    | none =>
      cases run
      exact ⟨h₁, e₁, spreads⟩
    | some keywords =>
      obtain ⟨messages, s₂, run₂, done⟩ := run_bind_eq_ok.1 run
      cases done
      obtain ⟨h₂, e₂, messages⟩ := more h₁ (by simp) run₂
      exact ⟨h₂, e₁.trans e₂, spreads.later e₂.extends messages⟩

end RunReport.Session
