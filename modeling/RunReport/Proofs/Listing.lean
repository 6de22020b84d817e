import RunReport.Proofs.Telling
/-!
# The nodes that are listed

Whoever lists children, searches for tests or looks up a name is given ids of nodes that the source
has: a child stands in the slot it was put into, and what is registered is in the source.
-/

namespace RunReport

/-- The source has the suite, test or keyword. -/
def NodeId.In (src : Source) : NodeId → Prop
  | .branch r => ∃ p, src.node? r = .ok (some p)
  | .message _ => True

open Effects

/-- What is found at a place stands in its slot from then on. -/
theorem Place.get_slot {σ α ε : Type} (place : Place σ α) (create : Nat → ExceptT ε (StateM σ) α)
    {i : Nat} {s : σ} {a : α} (h : ((place.get create i).run s).1 = .ok (some a)) :
    (place.view ((place.get create i).run s).2).slot? i = some a := by
  rw [Place.get_run] at h ⊢
  split at h
  · rename_i inside
    rw [if_pos inside]
    cases hs : (place.view (place.update (·.measure) s)).slot? i with
    | some b =>
      rw [hs] at h
      cases h
      exact hs
    | none =>
      rw [hs] at h
      rcases hc : (create i).run (place.update (·.measure) s) with ⟨_ | b, t⟩
      · rw [hc] at h
        cases h
      · rw [hc] at h
        exact Except.ok.inj h
  · cases h

namespace Session

variable {s : Session} {lib : Source} {engine : Query.Engine}

/-- Registered nodes are in the source. -/
theorem Consistent.in_of_node (h : s.Consistent) (within : s.source.Within lib) {id : NodeId}
    (registered : (s.node? id).isSome) : id.In lib := by
  cases id with
  | message number => trivial
  | branch r =>
    obtain ⟨n, hn⟩ := Option.isSome_iff_exists.1 registered
    obtain ⟨p, hp, -⟩ := h.follows r n hn
    exact ⟨p, within.node? hp⟩

/-- What is registered when a computation looks at the session. -/
theorem tells_get : Tells lib get fun s => ∀ r, (s.branch? r).isSome → NodeId.In lib (.branch r) := by
  refine ⟨keeps_get, ?_⟩
  rintro s h within t ⟨⟩ r registered
  exact h.in_of_node within registered

/-! ## Children -/

/-- A child that is found belongs where it was looked for, and is registered. -/
theorem childAt_placed (h : s.Consistent) {owner : Route} {kind : NodeKind} {i : Nat} {id : NodeId}
    (found : ((childAt owner kind i).run s).1 = .ok (some id)) :
    Belongs owner kind i id ∧ (((childAt owner kind i).run s).2.node? id).isSome := by
  have h' := (keeps_childAt owner kind i s h).1
  have slot := Place.get_slot (made owner kind) (create owner kind) found
  change ((made owner kind).view ((childAt owner kind i).run s).2).slot? i = some id at slot
  cases hl : ((childAt owner kind i).run s).2.list? owner kind with
  | none => simp [made, hl, LazyList.slot?_ofLength] at slot
  | some l =>
    rw [view_made hl] at slot
    exact h'.filled owner kind l i id hl slot

theorem tells_childAt (owner : Route) (kind : NodeKind) (i : Nat) :
    Tells lib (childAt owner kind i) fun found => ∀ id, found = some id → id.In lib := by
  refine ⟨(keeps_childAt owner kind i).extends, ?_⟩
  rintro s h within found hfound id rfl
  exact (keeps_childAt owner kind i s h).1.in_of_node within (childAt_placed h hfound).2

theorem tells_itemsAt {place : Place Session NodeId} {create : Nat → Run NodeId} {P : NodeId → Prop}
    (get : ∀ i, Tells lib (place.get create i) fun found => ∀ id, found = some id → P id)
    (is : List Nat) : Tells lib (place.itemsAt create is) fun ids => ∀ id ∈ ids, P id := by
  induction is with
  | nil => exact tells_pure fun id hid => by cases hid
  | cons i is ih =>
    refine tells_bind (get i) fun found => tells_bind ih fun later => tells_pure ?_
    intro hlater hfound id hid
    rcases List.mem_append.1 hid with first | rest
    · exact hfound id (Option.mem_toList.1 first)
    · exact hlater id rest

theorem tells_childList_of {owner : Route} {kind : NodeKind} {P : NodeId → Prop}
    (get : ∀ i, Tells lib (childAt owner kind i) fun found => ∀ id, found = some id → P id) :
    Tells lib (childList owner kind) fun ids => ∀ id ∈ ids, P id := by
  have gather : Tells lib (gathered owner kind) fun ids => ∀ id ∈ ids, P id := by
    refine tells_after ?_ fun n => tells_itemsAt get _
    exact fun s h => ⟨consistent_measure h owner kind, (explores_measure s owner kind).extends⟩
  refine ⟨(keeps_childList owner kind).extends, fun s h => ?_⟩
  obtain ⟨t, run, -, e⟩ := childList_gathers h owner kind
  rw [run]
  intro within
  exact gather.result s h (e.source ▸ within)

theorem tells_childList (owner : Route) (kind : NodeKind) :
    Tells lib (childList owner kind) fun ids => ∀ id ∈ ids, id.In lib :=
  tells_childList_of (tells_childAt owner kind)

theorem tells_typedList (id : NodeId) (kind : NodeKind) :
    Tells lib (typedList id kind) fun found => ∀ ids, found = some ids → ∀ x ∈ ids, x.In lib := by
  cases id with
  | message number => exact tells_pure fun ids hids => by cases hids
  | branch r =>
    refine tells_after keeps_get fun s => ?_
    cases s.list? r kind with
    | none => exact tells_pure fun ids hids => by cases hids
    | some l =>
      refine tells_bind (tells_childList r kind) fun ids => tells_pure ?_
      rintro hids _ ⟨⟩
      exact hids

/-! ## Searches -/

theorem tells_suitesOf (r : Route) :
    Tells lib (suitesOf r) fun rs => ∀ x ∈ rs, NodeId.In lib (.branch x) := by
  refine tells_bind (tells_childList r .suite) fun ids => tells_pure ?_
  intro hids x hx
  obtain ⟨id, hid, hr⟩ := List.mem_filterMap.1 hx
  cases id with
  | message number => cases hr
  | branch x' =>
    cases hr
    exact hids _ hid

theorem tells_testsOf (r : Route) : Tells lib (testsOf r) fun ids => ∀ id ∈ ids, id.In lib :=
  tells_childList r .test

theorem tells_flatMapRun {f : Route → Run (List NodeId)}
    (hf : ∀ r, Tells lib (f r) fun ids => ∀ id ∈ ids, id.In lib) (rs : List Route) :
    Tells lib (flatMapRun f rs) fun ids => ∀ id ∈ ids, id.In lib := by
  induction rs with
  | nil => exact tells_pure fun id hid => by cases hid
  | cons r rs ih =>
    refine tells_bind (hf r) fun first => tells_bind ih fun later => tells_pure ?_
    intro hlater hfirst id hid
    rcases List.mem_append.1 hid with hid | hid
    · exact hfirst id hid
    · exact hlater id hid

theorem tells_searchFrom (p : Test → Bool) (depth : Nat) (r : Route) :
    Tells lib (searchFrom p depth r) fun ids => ∀ id ∈ ids, id.In lib := by
  induction depth generalizing r with
  | zero => exact tells_pure fun id hid => by cases hid
  | succ depth ih =>
    refine tells_after (keeps_suitesOf r).extends fun below => ?_
    refine tells_bind (tells_flatMapRun ih below) fun found => ?_
    refine tells_bind (tells_testsOf r) fun own => ?_
    refine tells_after keeps_get fun s => tells_pure ?_
    intro hown hfound id hid
    rcases List.mem_append.1 hid with hid | hid
    · exact hfound id hid
    · exact hown id (List.mem_filter.1 hid).1

theorem tells_searchTests (p : Test → Bool) (r : Route) :
    Tells lib (searchTests p r) fun ids => ∀ id ∈ ids, id.In lib :=
  tells_after keeps_get fun _ => tells_searchFrom p _ r

theorem tells_testsOfStat (t : TagStat) (r : Route) :
    Tells lib (testsOfStat t r) fun ids => ∀ id ∈ ids, id.In lib := by
  rw [testsOfStat]
  split
  · exact tells_searchTests _ r
  · exact tells_searchTests _ r

theorem tells_inMatchingFrom (m : Query.Matcher engine) (depth : Nat) (r : Route) :
    Tells lib (inMatchingFrom m depth r) fun ids => ∀ id ∈ ids, id.In lib := by
  induction depth generalizing r with
  | zero => exact tells_pure fun id hid => by cases hid
  | succ depth ih =>
    refine tells_after keeps_get fun s => ?_
    split
    · exact tells_searchTests _ r
    · exact tells_after (keeps_suitesOf r).extends fun _ => tells_flatMapRun ih _

theorem tells_testsInSuites (pattern : String) (r : Route) :
    Tells lib (testsInSuites pattern r) fun ids => ∀ id ∈ ids, id.In lib :=
  tells_after keeps_get fun _ => tells_inMatchingFrom _ _ r

theorem tells_searchByTag (query : String) :
    Tells lib (searchByTag query) fun ids => ∀ id ∈ ids, id.In lib :=
  tells_after keeps_rootSuite.extends fun _ => tells_searchTests _ _

theorem tells_findFirst {f : Route → Run (Option Route)}
    (hf : ∀ r, Tells lib (f r) fun found => ∀ x, found = some x → NodeId.In lib (.branch x))
    (rs : List Route) :
    Tells lib (findFirst f rs) fun found => ∀ x, found = some x → NodeId.In lib (.branch x) := by
  induction rs with
  | nil => exact tells_pure fun x hx => by cases hx
  | cons r rs ih =>
    refine tells_bind (hf r) fun found => ?_
    cases found with
    | some x => exact tells_pure id
    | none => exact ih.imp fun _ found _ => found

/-- What is a suite is registered. -/
theorem registered_of_suite? {r : Route} {su : Suite} (h : s.suite? r = some su) :
    (s.branch? r).isSome := by
  cases hn : s.branch? r with
  | none => simp [suite?, hn] at h
  | some n => rfl

theorem registered_of_hasFullName {name : String} {r : Route} (h : s.hasFullName name r = true) :
    (s.branch? r).isSome := by
  rw [hasFullName] at h
  split at h
  · next su there => exact registered_of_suite? there
  · cases h

theorem registered_of_leadsTo {name : String} {r : Route} (h : s.leadsTo name r = true) :
    (s.branch? r).isSome := by
  rw [leadsTo] at h
  split at h
  · next su there => exact registered_of_suite? there
  · cases h

theorem tells_findSuiteFrom (name : String) (depth : Nat) (r : Route) :
    Tells lib (findSuiteFrom name depth r) fun found =>
      ∀ x, found = some x → NodeId.In lib (.branch x) := by
  induction depth generalizing r with
  | zero => exact tells_pure fun x hx => by cases hx
  | succ depth ih =>
    refine tells_bind tells_get fun s => ?_
    split
    · rename_i named
      refine tells_pure ?_
      rintro registered _ ⟨⟩
      exact registered r (registered_of_hasFullName named)
    · refine tells_after (keeps_suitesOf r).extends fun below => ?_
      exact (tells_findFirst ih below).imp fun _ found _ => found

theorem tells_findSuite (name : String) (r : Route) :
    Tells lib (findSuite name r) fun found => ∀ x, found = some x → NodeId.In lib (.branch x) :=
  tells_after keeps_get fun _ => tells_findSuiteFrom name _ r

/-! ## Names -/

theorem tells_descendFrom (name : String) (depth : Nat) (r : Route) :
    Tells lib (descendFrom name depth r) fun rs => ∀ x ∈ rs, NodeId.In lib (.branch x) := by
  induction depth generalizing r with
  | zero => exact tells_pure fun x hx => by cases hx
  | succ depth ih =>
    refine tells_after keeps_get fun _ => ?_
    split
    · exact tells_pure fun x hx => by cases hx
    · refine tells_bind (tells_suitesOf r) fun below => tells_after keeps_get fun s => ?_
      cases hnext : below.find? (s.leadsTo name) with
      | none => exact tells_pure fun _ x hx => by cases hx
      | some next =>
        refine tells_bind (ih next) fun later => tells_pure ?_
        intro hlater hbelow x hx
        rcases List.mem_cons.1 hx with rfl | hx
        · exact hbelow x (List.mem_of_find?_eq_some hnext)
        · exact hlater x hx

theorem tells_routeToSuite (name : String) :
    Tells lib (routeToSuite name) fun rs => ∀ x ∈ rs, NodeId.In lib (.branch x) := by
  refine tells_after keeps_rootSuite.extends fun _ => tells_bind tells_get fun s => ?_
  split
  · rename_i leads
    refine tells_bind (tells_descendFrom name _ _) fun below => tells_pure ?_
    intro hbelow registered x hx
    rcases List.mem_cons.1 hx with rfl | hx
    · exact registered .root (registered_of_leadsTo leads)
    · exact hbelow x hx
  · exact tells_pure fun _ x hx => by cases hx

theorem branches_in {rs : List Route} (h : ∀ x ∈ rs, NodeId.In lib (.branch x)) :
    ∀ id ∈ rs.map NodeId.branch, id.In lib := by
  intro id hid
  obtain ⟨r, hr, rfl⟩ := List.mem_map.1 hid
  exact h r hr

theorem tells_pathToSuite (name : String) :
    Tells lib (pathToSuite name) fun ids => ∀ id ∈ ids, id.In lib :=
  tells_bind (tells_routeToSuite name) fun _ => tells_pure branches_in

theorem tells_pathToTest (name : String) :
    Tells lib (pathToTest name) fun ids => ∀ id ∈ ids, id.In lib := by
  rw [pathToTest]
  split
  · exact tells_pure fun id hid => by cases hid
  · refine tells_bind (tells_routeToSuite _) fun chain => ?_
    cases chain.getLast? with
    | none => exact tells_pure branches_in
    | some last =>
      refine tells_after keeps_get fun _ => ?_
      split
      · refine tells_bind (tells_testsOf last) fun tests => tells_after keeps_get fun s => ?_
        refine tells_pure ?_
        intro htests hchain id hid
        rcases List.mem_append.1 hid with hid | hid
        · exact branches_in hchain id hid
        · exact htests id (List.mem_of_find?_eq_some (Option.mem_toList.1 hid))
      · exact tells_pure branches_in

end Session

end RunReport
