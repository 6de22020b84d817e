import RunReport.Proofs.Lineage
import RunReport.Proofs.Runs
/-!
# Failed teardowns

A suite whose last keyword is a teardown that failed fails everything below it. A node carries one
mark for all the suites above it, set when the node is made from the mark of its suite and from the
last keyword of that suite. The mark says that some suite above, near or far, has a failed teardown,
and so does what the node shows.
-/

namespace RunReport

/-- The mark of a suite or test. -/
def Plain.mark? : Plain → Option Bool
  | .suite _ _ aboveFailed _ => some aboveFailed
  | .test _ _ aboveFailed _ => some aboveFailed
  | .keyword _ _ _ => none

namespace Source

/-- The last keyword of the suite at a route is a teardown that failed. -/
def FailedTeardown (src : Source) (r : Route) : Prop :=
  ∃ record fullName aboveFailed table last path table',
    src.node? r = .ok (some (.suite record fullName aboveFailed table)) ∧
    src.node? (.child r ⟨.keyword, record.keywords.length - 1⟩) =
      .ok (some (.keyword last path table')) ∧
    last.type = .teardown ∧ last.status = .fail

/-- Some suite above has a failed teardown. -/
def TornDown (src : Source) (r : Route) : Prop :=
  ∃ a ∈ r.owners, src.FailedTeardown a

variable {src : Source}

theorem tornDown_child (owner : Route) (step : Segment) :
    src.TornDown (.child owner step) ↔ src.TornDown owner ∨ src.FailedTeardown owner := by
  simp only [TornDown, Route.owners, List.mem_append, List.mem_singleton]
  constructor
  · rintro ⟨a, ha | rfl, failed⟩
    · exact .inl ⟨a, ha, failed⟩
    · exact .inr failed
  · rintro (⟨a, ha, failed⟩ | failed)
    · exact ⟨a, .inl ha, failed⟩
    · exact ⟨owner, .inr rfl, failed⟩

/-! ## The last keyword of a suite -/

section Suite

variable {r : Route} {record : SuiteRecord} {fullName : String} {aboveFailed : Bool}
  {table : TableRef}

/-- The keyword at the last place is the one whose record stands last. -/
theorem node?_lastKeyword
    (hp : src.node? r = .ok (some (.suite record fullName aboveFailed table))) :
    src.node? (.child r ⟨.keyword, record.keywords.length - 1⟩) =
      match record.keywords.getLast? with
      | some last => (src.readIn table (src.coding.keyword last)).map fun k =>
          some (.keyword k s!"{fullName}.{record.keywords.length - 1}" table)
      | none => .ok none := by
  have slot : record.keywords[record.keywords.length - 1]? = record.keywords.getLast? :=
    List.getLast?_eq_getElem?.symm
  rw [node?_child_of hp]
  simp only [child?, record?, items?, Branch.kind, slot]
  cases record.keywords.getLast? with
  | none => rfl
  | some last =>
    simp only [Option.map_some, readChild, readKeyword, Plain.pathBase]
    cases src.readIn table (src.coding.keyword last) <;> rfl

theorem failedTeardown_iff
    (hp : src.node? r = .ok (some (.suite record fullName aboveFailed table))) :
    src.FailedTeardown r ↔ ∃ last k, record.keywords.getLast? = some last ∧
      src.readIn table (src.coding.keyword last) = .ok k ∧ isFailedTeardown k = true := by
  have last := node?_lastKeyword hp
  constructor
  · rintro ⟨record', fullName', aboveFailed', table', k, path, tableK, hp', hk, type, status⟩
    cases hp.symm.trans hp'
    rw [last] at hk
    cases hl : record.keywords.getLast? with
    | none => rw [hl] at hk; cases hk
    | some raw =>
      rw [hl] at hk
      cases hread : src.readIn table (src.coding.keyword raw) with
      | error e => simp only [hread] at hk; cases hk
      | ok k' =>
        simp only [hread] at hk
        cases hk
        exact ⟨raw, k, rfl, hread, by simp [isFailedTeardown, type, status]⟩
  · rintro ⟨raw, k, hl, hread, failed⟩
    simp only [hl, hread, Except.map] at last
    simp only [isFailedTeardown, Bool.and_eq_true, decide_eq_true_eq] at failed
    exact ⟨record, fullName, aboveFailed, table, k, _, table, hp, last, failed.1, failed.2⟩

/-- With the mark of a suite and its last keyword it is known whether it, or a suite above it, has a
failed teardown; where that cannot be known the last keyword cannot be read. -/
theorem teardownFailure_spec
    (hp : src.node? r = .ok (some (.suite record fullName aboveFailed table)))
    (mark : aboveFailed = true ↔ src.TornDown r) :
    (src.teardownFailure (.suite record fullName aboveFailed table) = .ok true ↔
      src.TornDown r ∨ src.FailedTeardown r) ∧
    ∀ e, src.teardownFailure (.suite record fullName aboveFailed table) = .error e →
      ¬ src.TornDown r ∧
        src.node? (.child r ⟨.keyword, record.keywords.length - 1⟩) = .error e := by
  have last := node?_lastKeyword hp
  have own := failedTeardown_iff hp
  rw [← mark, own]
  cases aboveFailed with
  | true => simp [teardownFailure]
  | false =>
    simp only [teardownFailure, Bool.false_eq_true, if_false, false_or, not_false_eq_true, true_and]
    cases hl : record.keywords.getLast? with
    | none => simp
    | some raw =>
      rw [hl] at last
      cases hread : src.readIn table (src.coding.keyword raw) with
      | error e =>
        simp only [hread, Except.map] at last ⊢
        simpa [hread] using last
      | ok k => simp [hread, Except.map]

end Suite

/-! ## The mark of a node -/

/-- A suite or test is marked with what is known about its suite when it is read. -/
theorem mark_read {above p : Plain} {step : Segment} (h : src.child? above step = .ok (some p))
    {failed : Bool} (mark : p.mark? = some failed) :
    above.kind = .suite ∧ src.teardownFailure above = .ok failed := by
  obtain ⟨r, t, hr, hp⟩ := child?_eq_some.1 h
  obtain ⟨items, hi, -⟩ := record?_eq_some.1 hr
  have isSuite : step.branch ≠ .keyword → above.kind = .suite := by
    intro other
    cases above with
    | suite => rfl
    | test => cases hb : step.branch <;> simp_all [items?, Branch.kind]
    | keyword => cases hb : step.branch <;> simp_all [items?, Branch.kind]
  simp only [readChild] at hp
  cases hb : step.branch with
  | suite =>
    rw [hb] at hp isSuite
    obtain ⟨record, failed', -, found, rfl⟩ := readSuite_below.1 hp
    cases mark
    exact ⟨isSuite (by simp), found⟩
  | test =>
    rw [hb] at hp isSuite
    obtain ⟨record, failed', -, found, rfl⟩ := readTest_eq_ok.1 hp
    cases mark
    exact ⟨isSuite (by simp), found⟩
  | keyword =>
    rw [hb] at hp
    obtain ⟨record, -, rfl⟩ := readKeyword_eq_ok.1 hp
    cases mark

/-- Whether a suite above failed, as it was found out when the suite or test was made from above. -/
theorem mark_child {owner : Route} {step : Segment} {above : Plain}
    (ho : src.node? owner = .ok (some above)) {failed : Bool}
    (mark : ∀ f, above.mark? = some f → (f = true ↔ src.TornDown owner))
    (isSuite : above.kind = .suite) (found : src.teardownFailure above = .ok failed) :
    failed = true ↔ src.TornDown (.child owner step) := by
  cases above with
  | test => cases isSuite
  | keyword => cases isSuite
  | suite record fullName aboveFailed table =>
    have spec := (teardownFailure_spec ho (mark aboveFailed rfl)).1
    rw [found] at spec
    rw [tornDown_child, ← spec]
    simp

/-- The mark says that some suite above has a failed teardown. -/
theorem mark_iff {r : Route} {p : Plain} (hp : src.node? r = .ok (some p)) {failed : Bool}
    (mark : p.mark? = some failed) : failed = true ↔ src.TornDown r := by
  induction r generalizing p failed with
  | root =>
    have root := node?_root hp
    simp only [readSuite] at root
    cases hr : src.readIn .main (src.coding.suite src.suite) with
    | error e => rw [hr] at root; cases root
    | ok record =>
      rw [hr] at root
      cases root
      cases mark
      simp [TornDown, Route.owners]
  | child owner step ih =>
    obtain ⟨above, ho, hc⟩ := node?_child hp
    obtain ⟨isSuite, found⟩ := mark_read hc mark
    exact mark_child ho (fun f hf => ih ho hf) isSuite found

end Source

/-! ## What is shown -/

/-- The status shown below suites of which some (`torn`) or none have a failed teardown. -/
def StatusBelow (torn : Prop) (coded shown : Status) : Prop :=
  (torn → shown = .fail) ∧ (¬ torn → shown = coded)

/-- The message shown there: one note, whatever the number of suites. -/
def MessageBelow (torn : Prop) (own shown : Except Error String) : Prop :=
  (¬ torn → shown = own) ∧
  (torn → shown = own.map fun text =>
    if text = "" then "Teardown of the parent suite failed."
    else text ++ "\n\n" ++ "Also teardown of the parent suite failed.")

theorem effectiveStatus_below {torn : Prop} {failed : Bool} (mark : failed = true ↔ torn)
    (coded : Status) : StatusBelow torn coded (effectiveStatus coded failed) := by
  constructor
  · intro ht
    rw [mark.2 ht]
    rfl
  · intro ht
    rw [Bool.eq_false_iff.2 fun hf => ht (mark.1 hf)]
    rfl

theorem effectiveMessage_below {torn : Prop} {failed : Bool} (mark : failed = true ↔ torn)
    (own : Except Error String) :
    MessageBelow torn own (own.map (effectiveMessage · failed)) := by
  constructor
  · intro ht
    rw [Bool.eq_false_iff.2 fun hf => ht (mark.1 hf)]
    cases own <;> rfl
  · intro ht
    rw [mark.2 ht]
    simp only [effectiveMessage, Bool.not_true, Bool.false_eq_true, if_false, String.isEmpty_iff]
    rfl

namespace Session

open Effects

variable {s : Session}

/-- What a description of a node shows in view of the teardowns above it. -/
def Description.HeedsTeardowns (src : Source) (r : Route) : Plain → Description → Prop
  | .suite record _ _ table, .suite v =>
    StatusBelow (src.TornDown r) record.status v.suite.status ∧
    MessageBelow (src.TornDown r) (src.slotText table record.message) v.message ∧
    (v.teardownFailure = .ok true ↔ src.TornDown r ∨ src.FailedTeardown r) ∧
    ∀ e, v.teardownFailure = .error e → ¬ src.TornDown r ∧
      src.node? (.child r ⟨.keyword, record.keywords.length - 1⟩) = .error e
  | .test record _ _ table, .test v =>
    StatusBelow (src.TornDown r) record.status v.test.status ∧
    MessageBelow (src.TornDown r) (src.slotText table record.message) v.message
  | .keyword record _ _, .keyword v => v.keyword.record.status = record.status
  | _, _ => False

theorem describe_run {r : Route} {n : Node} (hn : s.branch? r = some n) {d : Description}
    {s' : Session} (run : (describeNode (.branch r) n).run s = (.ok d, s')) :
    (describe (.branch r)).run s = (.ok (some d), s') := by
  simp only [describe, run_bind, run_get, show s.node? (.branch r) = some n from hn, run]
  rfl

/-- In every session, whatever was made in whichever order: a suite or test is shown as failed if a
suite above it has a failed teardown, with one note in its message, and as its record says
otherwise; a keyword is shown as its record says; and a suite knows of the teardowns above it and
its own. -/
theorem teardown_failure_reaches_below (h : s.Reachable) {r : Route} {n : Node}
    (hn : s.branch? r = some n) :
    ∃ p d s', s.source.node? r = .ok (some p) ∧
      (describe (.branch r)).run s = (.ok (some d), s') ∧ d.HeedsTeardowns s.source r p := by
  have consistent := h.consistent
  obtain ⟨p, hp, follows⟩ := consistent.follows r n hn
  have plain := follows.plain
  cases n with
  | message m => cases plain
  | suite su =>
    cases plain
    obtain ⟨s', run⟩ := describe_suite consistent hn
    have mark := Source.mark_iff hp rfl
    refine ⟨_, _, s', hp, describe_run hn run, effectiveStatus_below mark _,
      effectiveMessage_below mark _, Source.teardownFailure_spec hp mark⟩
  | test t =>
    cases plain
    obtain ⟨s', run⟩ := describe_test consistent hn
    have mark := Source.mark_iff hp rfl
    exact ⟨_, _, s', hp, describe_run hn run, effectiveStatus_below mark _,
      effectiveMessage_below mark _⟩
  | keyword k =>
    cases plain
    obtain ⟨s', run⟩ := describe_keyword consistent hn
    exact ⟨_, _, s', hp, describe_run hn run, rfl⟩

/-- A suite whose last keyword is a teardown that failed, and a test two levels below it. -/
def tornReport : String :=
  "\x7b\"version\":2,\"generatedMillis\":0,\"baseMillis\":0," ++
  "\"strings\":[\"*\",\"*Root\",\"*k\"]," ++
    "\"suite\":[1,0,0,0,[],[1,0,1],[" ++
    "[1,0,0,0,[],[1,0,1],[],[[1,0,1,0,[],[1,0,1],[]]],[],[1,1,1,1]]" ++
    "],[],[[2,2,0,0,0,[0,0,1],[],[]]],[1,1,1,1]],\"stats\":[]\x7d"

def tornRun : List (Files × Step) :=
  [(sampleFiles, .report .suite), (sampleFiles, .node (.id "s1") (.child .suite 0)),
    (sampleFiles, .node (.id "s1-s1") (.child .test 0))]

/-- The route `s1-s1-t1`. -/
def tornTest : Route :=
  .child (.child .root ⟨.suite, 0⟩) ⟨.test, 0⟩

def Description.knowsFailure : Description → Bool
  | .suite v => match v.teardownFailure with
    | .ok known => known
    | .error _ => false
  | _ => false

def Description.passedTest : Description → Bool
  | .test v => v.test.record.status = .pass
  | _ => false

/-- Whether what is shown of a node passes a check. -/
def shows (check : Description → Bool) (id : NodeId) (s : Session) : Bool :=
  match ((describe id).run s).1 with
  | .ok (some d) => check d
  | _ => false

theorem shows_run {check : Description → Bool} {r : Route}
    (h : shows check (.branch r) s = true) : ∃ n d s', s.branch? r = some n ∧
      (describe (.branch r)).run s = (.ok (some d), s') ∧ check d = true := by
  rw [shows] at h
  cases hn : s.branch? r with
  | none =>
    simp only [describe, run_bind, run_get, show s.node? (.branch r) = none from hn] at h
    cases h
  | some n =>
    rcases hd : (describe (.branch r)).run s with ⟨_ | _ | d, s'⟩
    · rw [hd] at h; cases h
    · rw [hd] at h; cases h
    · rw [hd] at h
      exact ⟨n, d, s', rfl, rfl, h⟩

theorem teardown_failure_reaches_below_sample : ∃ s : Session, s.Reachable ∧
    (s.branch? .root).isSome ∧ (s.branch? tornTest).isSome ∧ s.source.FailedTeardown .root ∧
    ∃ v s', (describe (.branch tornTest)).run s = (.ok (some (.test v)), s') ∧
      v.test.record.status = .pass ∧ v.test.status = .fail := by
  have opens : opensTo (fun s₀ =>
      shows (·.knowsFailure) (.branch .root) ((play tornRun).run s₀).2 &&
      shows (·.passedTest) (.branch tornTest) ((play tornRun).run s₀).2) tornReport = true := by
    decide +kernel
  obtain ⟨s₀, opened, shown⟩ := opensTo_iff.1 opens
  have reachable : ((play tornRun).run s₀).2.Reachable :=
    ⟨tornReport, s₀, tornRun, opened, by simp [tornRun, Step.keepsReport], rfl⟩
  generalize ((play tornRun).run s₀).2 = s at reachable shown
  obtain ⟨root, test⟩ := Bool.and_eq_true_iff.1 shown
  obtain ⟨n, d, s₁, hn, hd, knows⟩ := shows_run root
  obtain ⟨m, e, s₂, hm, he, passed⟩ := shows_run test
  obtain ⟨p, d', s₁', -, hd', heeds⟩ := teardown_failure_reaches_below reachable hn
  obtain ⟨q, e', s₂', -, he', heeds'⟩ := teardown_failure_reaches_below reachable hm
  cases hd.symm.trans hd'
  cases he.symm.trans he'
  -- The root has nothing above it, so what it knows of is its own teardown.
  have failed : s.source.FailedTeardown .root := by
    cases p <;> cases d <;> simp only [Description.knowsFailure, reduceCtorEq] at knows
    case suite.suite record name mark table v =>
      have known : v.teardownFailure = .ok true := by
        cases ht : v.teardownFailure <;> simp_all
      simpa [Source.TornDown, Route.owners] using heeds.2.2.1.1 known
    all_goals exact heeds.elim
  have torn : s.source.TornDown tornTest := ⟨.root, by simp [tornTest, Route.owners], failed⟩
  cases q <;> cases e <;>
    simp only [Description.passedTest, decide_eq_true_eq, reduceCtorEq] at passed
  case test.test record name mark table v =>
    exact ⟨s, reachable, by simp [hn], by simp [hm], failed, v, s₂, he, passed, heeds'.1.1 torn⟩
  all_goals exact heeds'.elim

end Session

end RunReport
