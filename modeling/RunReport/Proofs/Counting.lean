import RunReport.Proofs.Filtering
import RunReport.Proofs.Teardown
/-!
# Rows that count what a search finds

A search by tags gives the same tests whenever it is made, those whose records have such tags, and a
row for the query counts them by the status they end with. That is the one in the record unless a
suite above has a failed teardown, so below a root suite with a failed teardown all count as failed.
-/

namespace RunReport

theorem Route.root_mem_owners (owner : Route) (step : Segment) :
    Route.root ∈ (Route.child owner step).owners := by
  induction owner generalizing step with
  | root => simp [owners]
  | child owner step' ih => exact List.mem_append_left _ (ih step')

namespace Source

variable {src : Source} {r : Route} {id : NodeId} {status : Status} {q : TestRecord → Bool}

/-- The test ends with this status: the one in its record, unless a suite above has a failed
teardown. -/
def Ends (src : Source) (id : NodeId) (status : Status) : Prop :=
  ∃ r record name failed t, id = .branch r ∧
    src.node? r = .ok (some (.test record name failed t)) ∧
    StatusBelow (src.TornDown r) record.status status

/-- Below a root suite with a failed teardown every test ends as failed. -/
theorem Ends.of_failedRoot (h : src.Ends id status) (failed : src.FailedTeardown .root) :
    status = .fail := by
  obtain ⟨r, record, name, mark, t, rfl, there, below⟩ := h
  cases r with
  | root =>
    have suite := title?_root (title?_eq_some.2 ⟨_, there, rfl, rfl⟩ : src.title? .test .root = _)
    cases suite
  | child owner step => exact below.1 ⟨.root, Route.root_mem_owners owner step, failed⟩

theorem all_failed {ids : List NodeId} {statuses : List Status}
    (ends : List.Forall₂ src.Ends ids statuses) (failed : src.FailedTeardown .root) :
    ∀ status ∈ statuses, status = .fail := by
  induction ends with
  | nil => exact List.forall_mem_nil _
  | cons first _ ih => exact List.forall_mem_cons.2 ⟨first.of_failedRoot failed, ih⟩

/-- The record of the test at a route. -/
def testRecord? (src : Source) (r : Route) : Option TestRecord :=
  match src.node? r with
  | .ok (some (.test record _ _ _)) => some record
  | _ => none

theorem testRecord?_eq_some {record : TestRecord} : src.testRecord? r = some record ↔
    ∃ name failed t, src.node? r = .ok (some (.test record name failed t)) := by
  rw [testRecord?]
  split
  · rename_i found
    rw [found]
    simp
  · rename_i other
    refine iff_of_false nofun ?_
    rintro ⟨name, failed, t, found⟩
    exact other _ _ _ _ found

theorem title?_of_testRecord? {record : TestRecord} (h : src.testRecord? r = some record) :
    ∃ t, src.title? .test r = some t := by
  obtain ⟨name, failed, t, there⟩ := testRecord?_eq_some.1 h
  exact ⟨_, title?_eq_some.2 ⟨_, there, rfl, rfl⟩⟩

/-- All tests of the report whose records satisfy a condition. -/
def testsWith (src : Source) (q : TestRecord → Bool) : List NodeId :=
  Session.idsBelow .root ((src.testsBelow (src.suite.depth + 1) .root).filter fun steps =>
    (src.testRecord? (Route.root.append steps)).any q)

theorem Legible.from {bs : List Branch} (h : src.Legible bs)
    (kinds : ∀ step ∈ r.steps, step.branch ∈ bs) :
    src.LegibleFrom bs r := by
  intro steps below
  refine h _ fun step mem => ?_
  rw [Route.steps_append, List.mem_append] at mem
  exact mem.elim (kinds step) (below step)

theorem mem_testsWith (legible : src.Legible [.suite, .test]) : .branch r ∈ src.testsWith q ↔
    ∃ record, src.testRecord? r = some record ∧ q record = true := by
  have suites := legible.from (r := .root) (by simp [Route.steps])
  obtain ⟨t, root⟩ := legible.root
  simp only [testsWith, Session.idsBelow, List.mem_map, NodeId.branch.injEq, List.mem_filter,
    mem_testsBelow suites root (src.levels_lt .root), Option.any_eq_true]
  constructor
  · rintro ⟨steps, ⟨-, record⟩, rfl⟩
    exact record
  · rintro ⟨record, there, satisfied⟩
    refine ⟨r.steps, ⟨?_, record, ?_, satisfied⟩, r.append_steps⟩
    · rw [r.append_steps]
      exact title?_of_testRecord? there
    · rwa [r.append_steps]

theorem testsWith_nodup (src : Source) (q : TestRecord → Bool) : (src.testsWith q).Nodup := by
  refine List.Nodup.map ?_ ((src.testsBelow_nodup _ _).filter _)
  exact fun _ _ same => Route.root.append_injective (NodeId.branch.inj same)

end Source

namespace Session

open Effects

variable {s s' : Session} {r : Route} {test : Test} {ids : List NodeId}

/-! ## Tests and their records -/

theorem node?_of_test? (h : s.Consistent) (there : s.test? (.branch r) = some test) :
    s.source.node? r =
      .ok (some (.test test.record test.fullName test.aboveFailed test.table)) := by
  obtain ⟨p, plain, node, -⟩ := h.plain (test?_eq_some.1 there)
  cases plain
  exact node

/-- A test shows the status that it ends with. -/
theorem ends_of_test? {id : NodeId} (h : s.Consistent) (there : s.test? id = some test) :
    s.source.Ends id test.status := by
  cases id with
  | message number =>
    obtain ⟨m, message⟩ := h.logged number _ (test?_eq_some.1 there)
    cases message
  | branch r =>
    have node := node?_of_test? h there
    exact ⟨r, _, _, _, _, rfl, node, effectiveStatus_below (Source.mark_iff node rfl) _⟩

/-- A search by a condition on records gives the tests whose records satisfy it. -/
theorem searchTests_obtains (q : TestRecord → Bool) (h : s.Consistent)
    (legible : s.source.Legible [.suite, .test]) (registered : (s.branch? .root).isSome) :
    ∃ s', s.Obtains (searchTests (fun t => q t.record) .root) (s.source.testsWith q) s' ∧
      ∀ id ∈ s.source.testsWith q, (s'.test? id).isSome := by
  obtain ⟨t, root⟩ := legible.root
  have below := legible.from (r := .root) (by simp [Route.steps])
  obtain ⟨s', listed⟩ := searchFrom_obtains s.suiteDepth h below root
    registered
  obtain ⟨run, tests⟩ :=
    selects_searchFrom (fun t => q t.record) s.suiteDepth .root s _ s' listed.run
  -- Whether a test that was listed satisfies the condition is decided by its record.
  have decided : (idsBelow .root (s.source.testsBelow s.suiteDepth .root)).filter
      (s'.isMatch fun t => q t.record) = s.source.testsWith q := by
    rw [idsBelow, List.filter_map, Source.testsWith, idsBelow]
    congr 1
    refine List.filter_congr fun steps mem => ?_
    have listed' : NodeId.branch (Route.root.append steps) ∈
        idsBelow .root (s.source.testsBelow s.suiteDepth .root) := List.mem_map_of_mem mem
    obtain ⟨test, there⟩ := Option.isSome_iff_exists.1 (tests _ listed')
    have node := node?_of_test? listed.consistent there
    rw [listed.explores.source] at node
    simp only [Function.comp, isMatch, there,
      Source.testRecord?_eq_some.2 ⟨_, _, _, node⟩, Option.any_some]
  rw [decided] at run
  refine ⟨s', (obtains_get h).bind ⟨run, listed.consistent, listed.explores⟩, fun id mem => ?_⟩
  rw [← decided] at mem
  exact tests id (List.mem_filter.1 mem).1

theorem searchByTag_obtains (query : String) (h : s.Consistent)
    (legible : s.source.Legible [.suite, .test]) :
    ∃ s', s.Obtains (searchByTag query)
        (s.source.testsWith fun record => Query.tagsMatch record.tags query) s' ∧
      (s'.branch? .root).isSome ∧
      ∀ id ∈ s.source.testsWith fun record => Query.tagsMatch record.tags query,
        (s'.test? id).isSome := by
  obtain ⟨s₁, begun, registered⟩ := rootSuite_obtains h legible
  rw [← begun.explores.source] at legible ⊢
  obtain ⟨s₂, found, tests⟩ := searchTests_obtains (fun record => Query.tagsMatch record.tags query)
    begun.consistent legible registered
  exact ⟨s₂, begun.bind found, found.isSome registered, tests⟩

/-! ## Counts -/

/-- Counting tests by a status counts how often they end with it. -/
theorem countStatus_eq_count (tests : ∀ id ∈ ids, (s.test? id).isSome) : ∃ statuses,
    List.Forall₂ (fun id status => ∃ test, s.test? id = some test ∧ test.status = status) ids
      statuses ∧ ∀ status, s.countStatus status ids = statuses.count status := by
  induction ids with
  | nil => exact ⟨[], .nil, fun _ => rfl⟩
  | cons id ids ih =>
    rw [List.forall_mem_cons] at tests
    obtain ⟨test, there⟩ := Option.isSome_iff_exists.1 tests.1
    obtain ⟨statuses, shown, counts⟩ := ih tests.2
    refine ⟨test.status :: statuses, .cons ⟨test, there, rfl⟩ shown, fun status => ?_⟩
    have first : s.isMatch (fun t => t.status = status) id = decide (test.status = status) := by
      rw [isMatch, there]
    rw [countStatus, List.countP_cons, ← countStatus, counts, first, List.count_cons]
    simp only [decide_eq_true_eq, beq_iff_eq]

/-- Every test ends in one of three ways. -/
theorem count_statuses (statuses : List Status) :
    statuses.count .pass + statuses.count .fail + statuses.count .notRun = statuses.length := by
  induction statuses with
  | nil => rfl
  | cons status statuses ih =>
    cases status <;> simp <;> omega

/-- A row for a query counts what the search for the query finds. -/
theorem combinedStat_run {query : String} (search : (searchByTag query).run s = (.ok ids, s'))
    (name : Option String) : ∃ stat, (combinedStat query name).run s = (.ok stat, s') ∧
      stat.combined = some query ∧ stat.row.counts =
        ⟨s'.countStatus .pass ids, s'.countStatus .fail ids, s'.countStatus .notRun ids⟩ := by
  exact ⟨_, run_bind_ok search, rfl, rfl⟩

/-- In a report of which all suites and tests can be read, whatever has been read of it: a search
for a tag query gives the tests whose tags satisfy it, each once. A row for the query counts them by
the status that they end with, and asking the row for its tests gives the same list. If the root
suite has a failed teardown all of them count as failed. -/
theorem combined_row_counts_search (h : s.Reachable) (legible : s.source.Legible [.suite, .test])
    (query : String) (name : Option String) : ∃ ids statuses stat s₁ s₂,
      (searchByTag query).run s = (.ok ids, s₁) ∧ (combinedStat query name).run s = (.ok stat, s₁) ∧
      (testsOfStat stat .root).run s₁ = (.ok ids, s₂) ∧
      ids.Nodup ∧ (∀ r, .branch r ∈ ids ↔ ∃ record, s.source.testRecord? r = some record ∧
        Query.tagsMatch record.tags query = true) ∧
      List.Forall₂ s.source.Ends ids statuses ∧
      stat.row.counts = ⟨statuses.count .pass, statuses.count .fail, statuses.count .notRun⟩ ∧
      stat.row.counts.pass + stat.row.counts.fail + stat.row.counts.skip = ids.length ∧
      (s.source.FailedTeardown .root → stat.row.counts.pass = 0 ∧ stat.row.counts.skip = 0) := by
  obtain ⟨s₁, found, registered, tests⟩ := searchByTag_obtains query h.consistent legible
  have source := found.explores.source
  obtain ⟨s₂, again, -⟩ := searchTests_obtains (fun record => Query.tagsMatch record.tags query)
    found.consistent (source ▸ legible) registered
  rw [source] at again
  obtain ⟨stat, row, combined, counts⟩ := combinedStat_run found.run name
  obtain ⟨statuses, shown, counted⟩ := countStatus_eq_count tests
  have ends : List.Forall₂ s.source.Ends
      (s.source.testsWith fun record => Query.tagsMatch record.tags query) statuses := by
    refine shown.imp ?_
    rintro id status ⟨test, there, rfl⟩
    exact source ▸ ends_of_test? found.consistent there
  rw [counted, counted, counted] at counts
  refine ⟨_, statuses, stat, s₁, s₂, found.run, row, ?_, s.source.testsWith_nodup _,
    fun r => Source.mem_testsWith legible, ends, counts, ?_, fun failed => ?_⟩
  · rw [testsOfStat, combined]
    exact again.run
  · rw [counts, ends.length_eq]
    exact count_statuses statuses
  · have all := Source.all_failed ends failed
    rw [counts]
    constructor
    · exact List.count_eq_zero.2 fun mem => Status.noConfusion (all _ mem)
    · exact List.count_eq_zero.2 fun mem => Status.noConfusion (all _ mem)

/-! ## A sample -/

/-- A root suite with tests `x` that passed and was not run, a test without tags, and a suite with a
failed teardown and a test `x` that passed. -/
def taggedTests : String :=
  "\x7b\"version\":2,\"generatedMillis\":0,\"baseMillis\":0,
    \"strings\":[\"*\",\"*Root\",\"*A\",\"*t\",\"*X\"],\"suite\":[1,0,0,0,[],[1,0,1],
    [[2,0,0,0,[],[1,0,1],[],[[3,0,1,0,[4],[1,0,1],[]]],[[2,2,0,0,0,[0,0,1],[],[]]],[1,1,1,1]]],
    [[3,0,1,0,[4],[1,0,1],[]],[3,0,1,0,[],[1,0,1],[]],[3,0,1,0,[4],[2,0,1],[]]],[],
    [4,4,4,4]],\"stats\":[]\x7d"

/-- The ids of the three tests with a tag. -/
def taggedIds : List NodeId :=
  idsBelow .root [[⟨.suite, 0⟩, ⟨.test, 0⟩], [⟨.test, 0⟩], [⟨.test, 2⟩]]

set_option maxRecDepth 2000 in
/-- Of the three tests one counts as passed, one as failed and one as not run. -/
theorem combined_row_counts_search_sample : ∃ (s s₁ s₂ : Session) (stat : TagStat), s.Reachable ∧
    s.source.Legible [.suite, .test] ∧ (searchByTag "x").run s = (.ok taggedIds, s₁) ∧
    (combinedStat "x" none).run s = (.ok stat, s₁) ∧
    (testsOfStat stat .root).run s₁ = (.ok taggedIds, s₂) ∧ stat.row.counts = ⟨1, 1, 1⟩ := by
  have opens : opensTo (fun s => s.source.isWhole 4 && s.gives (searchByTag "x") taggedIds &&
      s.gives ((·.row.counts) <$> combinedStat "x" none) ⟨1, 1, 1⟩) taggedTests = true :=
    opensTo_ofList (by decide +kernel)
  obtain ⟨s, opened, checked⟩ := opensTo_iff.1 opens
  simp only [Bool.and_eq_true] at checked
  obtain ⟨⟨isWhole, finds⟩, counts⟩ := checked
  have reachable : s.Reachable := ⟨taggedTests, s, [], opened, by simp, rfl⟩
  have legible := (Source.whole_of_isWhole isWhole).legible [.suite, .test]
  obtain ⟨ids, -, stat, s₁, s₂, search, row, asked, -⟩ :=
    combined_row_counts_search reachable legible "x" none
  obtain ⟨s', search'⟩ := gives_iff.1 finds
  obtain ⟨u, counts'⟩ := gives_iff.1 counts
  cases search.symm.trans search'
  rw [run_map, row, Prod.mk.injEq] at counts'
  exact ⟨s, s₁, s₂, stat, reachable, legible, search, row, asked, Except.ok.inj counts'.1⟩

end Session

end RunReport
