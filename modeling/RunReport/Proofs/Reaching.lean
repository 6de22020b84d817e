import Mathlib.Data.List.TakeWhile
import RunReport.Proofs.Cutting
import RunReport.Proofs.Descending
/-!
# Tests by their full names

A full name is taken apart at its last dot: what stands before it is looked for among the suites,
and the tests of the suite that is found are compared with the whole name. Where the full names of
suites are distinct and no suite has a dot in its own name no suite hides another, so the right
suite is found whenever the last dot is the one before the test's own name; a test with a dot in its
own name is looked for in a suite that it does not stand in.
-/

namespace RunReport

namespace Session

/-- Below a suite only one name without dots leads to a given name. -/
theorem eq_of_isNameStart {above a b name : String} (plain : '.' ∉ a.toList)
    (plain' : '.' ∉ b.toList) (h : isNameStart (above ++ "." ++ a) name = true)
    (h' : isNameStart (above ++ "." ++ b) name = true) : a = b := by
  have next : ∀ {own : String}, '.' ∉ own.toList → isNameStart (above ++ "." ++ own) name = true →
      (name.toList.drop (above.toList.length + 1)).takeWhile (· != '.') = own.toList := by
    intro own undotted start
    have free : ∀ c ∈ own.toList, (c != '.') = true := by
      intro c mem
      rw [bne_iff_ne]
      rintro rfl
      exact undotted mem
    rcases isNameStart_iff.1 start with rfl | ⟨rest, rfl⟩
    · simp [List.takeWhile_eq_self_iff.2 free]
    · simp [List.takeWhile_append_of_pos free]
  exact String.toList_inj.1 ((next plain h).symm.trans (next plain' h'))

end Session

namespace Source

variable {src : Source} {r : Route} {name : String} {t : Title}

/-! ## Reports in which names tell suites apart -/

/-- No two suites have the same full name, and no suite has a dot in its own name. -/
structure WellNamed (src : Source) : Prop where
  distinct : ∀ r r' t t', src.title? .suite r = some t → src.title? .suite r' = some t' →
    t.full = t'.full → r = r'
  plain : ∀ r t, src.title? .suite r = some t → '.' ∉ t.own.toList

/-- There no suite hides another. -/
theorem WellNamed.not_hidden (h : src.WellNamed) (onward : src.leads name r = true) :
    src.isHidden name r = false := by
  induction r with
  | root => rfl
  | child owner step ih =>
    obtain ⟨b, i⟩ := step
    obtain ⟨rfl, above, -⟩ := leads_owner onward
    refine isHidden_child.2 ⟨ih above, fun j less => ?_⟩
    rw [← Bool.not_eq_true]
    intro earlier
    -- Both have the next part of the name for their own, so they are the same suite.
    obtain ⟨t, there, start⟩ := isTitled_iff.1 onward
    obtain ⟨t', there', start'⟩ := isTitled_iff.1 earlier
    obtain ⟨-, upper, thereAbove, full⟩ := title?_child (by decide) there
    obtain ⟨-, upper', thereAbove', full'⟩ := title?_child (by decide) there'
    cases thereAbove.symm.trans thereAbove'
    rw [full] at start
    rw [full'] at start'
    have own := Session.eq_of_isNameStart (h.plain _ _ there) (h.plain _ _ there') start start'
    have same := h.distinct _ _ _ _ there there' (by rw [full, full', own])
    cases same
    omega

/-! ## Checking names -/

/-- A suite and the suites below it, as deep as this. -/
def suitesFrom (src : Source) : (depth : Nat) → Route → List Route
  | 0, _ => []
  | depth + 1, r => r :: (src.below .suite r).flatMap (src.suitesFrom depth)

/-- All suites of the report. -/
def suites (src : Source) : List Route :=
  src.suitesFrom (src.suite.depth + 1) .root

theorem mem_suites (h : src.title? .suite r = some t) : r ∈ src.suites := by
  have named : src.isNamed .suite t.full r = true := isNamed_iff.2 ⟨t, h, rfl⟩
  apply towards_root (P := fun depth a => r ∈ src.suitesFrom depth a) (leads_of_isNamed named)
  · intro depth
    exact List.mem_cons_self
  · intro depth a i rest _ onward _ mem
    rw [suitesFrom, List.mem_cons, List.mem_flatMap]
    exact .inr ⟨_, mem_below (contains_of_leads onward), mem⟩

/-- Whether the suites are well named. -/
def isWellNamed (src : Source) : Bool :=
  src.suites.all fun r => (src.title? .suite r).all fun t =>
    !t.own.toList.contains '.' && src.suites.all fun r' => r' == r || !src.isNamed .suite t.full r'

theorem wellNamed_of_isWellNamed (h : src.isWellNamed = true) : src.WellNamed := by
  have each : ∀ r t, src.title? .suite r = some t → '.' ∉ t.own.toList ∧
      ∀ r' ∈ src.suites, r' = r ∨ src.isNamed .suite t.full r' = false := by
    intro r t there
    have here := List.all_eq_true.1 h r (mem_suites there)
    simpa [there] using here
  constructor
  · intro r r' t t' there there' same
    rcases (each r t there).2 r' (mem_suites there') with equal | other
    · exact equal.symm
    · rw [isNamed_iff.2 ⟨t', there', same.symm⟩] at other
      cases other
  · intro r t there
    exact (each r t there).1

/-! ## The way to a test -/

/-- The way to the suite that the name without its last part leads to, and on to a test of that
suite. -/
def wayToTest (src : Source) (name : String) : List Route :=
  match Text.cutLast '.' name.toList with
  | none => []
  | some (above, _) =>
    src.wayTo (String.ofList above) ++
      if src.isNamed .suite (String.ofList above) (src.goal (String.ofList above)) then
        ((src.below .test (src.goal (String.ofList above))).find? (src.isNamed .test name)).toList
      else []

/-- The way leads nowhere, to a suite, or to a test of a suite whose full name is what stands before
the last dot. -/
theorem wayToTest_cases (src : Source) (name : String) :
    src.wayToTest name = [] ∨
    (∃ q t, src.wayToTest name = q.line ∧ src.title? .suite q = some t) ∨
    ∃ q i above last, src.wayToTest name = (Route.child q ⟨.test, i⟩).line ∧
      src.isNamed .suite above q = true ∧
      name.toList = above.toList ++ '.' :: last ∧ '.' ∉ last := by
  have suite : ∀ upper, src.wayTo upper = [] ∨
      ∃ q t, src.wayTo upper = q.line ∧ src.title? .suite q = some t := by
    intro upper
    by_cases onward : src.leads upper .root = true
    · obtain ⟨t, there, -⟩ := isTitled_iff.1 (goal_stays onward).1
      exact .inr ⟨_, t, wayTo_of_leads onward, there⟩
    · exact .inl (if_neg onward)
  rw [wayToTest]
  split
  · exact .inl rfl
  · rename_i above last cutAt
    split
    · rename_i named
      have way := wayTo_of_leads (leads_root (leads_of_isNamed named))
      cases found : (src.below .test (src.goal (String.ofList above))).find?
          (src.isNamed .test name) with
      | none =>
        rw [Option.toList_none, List.append_nil]
        exact (suite (String.ofList above)).imp_right .inl
      | some q =>
        obtain ⟨i, rfl⟩ := eq_child_of_mem_below (List.mem_of_find?_eq_some found)
        obtain ⟨whole, undotted⟩ := Text.append_of_cutLast cutAt
        refine .inr (.inr ⟨_, i, String.ofList above, last, ?_, named, ?_, undotted⟩)
        · rw [way]
          rfl
        · simpa using whole
    · rw [List.append_nil]
      exact (suite (String.ofList above)).imp_right .inl

/-- A test that the way leads to has no dot in its own name. -/
theorem undotted_of_wayToTest (way : src.wayToTest name = r.line)
    (test : src.title? .test r = some t) (full : t.full = name) : '.' ∉ t.own.toList := by
  rcases src.wayToTest_cases name with none | ⟨q, t', way', suite⟩ |
    ⟨q, i, above, last, way', named, whole, undotted⟩
  · rw [none] at way
    simp [Route.line] at way
  · cases Route.line_injective (way.symm.trans way')
    cases title?_unique test suite
  · cases Route.line_injective (way.symm.trans way')
    obtain ⟨-, upper, there, full'⟩ := title?_child (by decide) test
    obtain ⟨upper', there', rfl⟩ := isNamed_iff.1 named
    cases there.symm.trans there'
    rw [← full, full'] at whole
    have own : t.own.toList = last := by simpa using whole
    rw [own]
    exact undotted

/-- A test without a dot in its own name is reached, or one before it with the same name. -/
theorem wayToTest_of_undotted (h : src.WellNamed) (test : src.title? .test r = some t)
    (full : t.full = name) (undotted : '.' ∉ t.own.toList) :
    ∃ q, src.wayToTest name = q.line ∧ src.isNamed .test name q = true := by
  cases r with
  | root => cases title?_root test
  | child owner step =>
    obtain ⟨b, i⟩ := step
    obtain ⟨rfl, upper, suite, full'⟩ := title?_child (by decide) test
    have cutAt : Text.cutLast '.' name.toList = some (upper.full.toList, t.own.toList) := by
      rw [← full, full']
      simpa using Text.cutLast_append (a := upper.full.toList) undotted
    have named : src.isNamed .suite upper.full owner = true := isNamed_iff.2 ⟨upper, suite, rfl⟩
    have onward := leads_of_isNamed named
    obtain ⟨-, ended⟩ := reached_of_not_hidden named (h.not_hidden onward)
    obtain ⟨q, found⟩ : ∃ q, (src.below .test owner).find? (src.isNamed .test name) = some q := by
      rw [← Option.isSome_iff_exists, List.find?_isSome]
      exact ⟨_, mem_below (contains_of_title? test), isNamed_iff.2 ⟨t, test, full⟩⟩
    obtain ⟨j, rfl⟩ := eq_child_of_mem_below (List.mem_of_find?_eq_some found)
    refine ⟨.child owner ⟨.test, j⟩, ?_, List.find?_some found⟩
    rw [wayToTest, cutAt]
    simp only [String.ofList_toList, wayTo_of_leads (leads_root onward), ended, named, if_true,
      found]
    rfl

end Source

namespace Session

variable {s : Session} {r : Route} {t : Title} {name : String} {bs : List Branch}

/-! ## Looking for a test -/

theorem test?_title (h : s.Consistent) (registered : (s.branch? r).isSome) :
    (s.test? (.branch r)).map (fun t => ⟨t.record.name, t.fullName⟩) = s.source.title? .test r := by
  obtain ⟨n, hn⟩ := Option.isSome_iff_exists.1 registered
  obtain ⟨p, plain, there, -⟩ := h.plain hn
  have hn' : s.node? (.branch r) = some n := hn
  simp only [test?, hn', Source.title?, there]
  cases n <;> cases plain <;> rfl

theorem testNamed_eq {p : String → Bool} (h : s.Consistent) (registered : (s.branch? r).isSome) :
    s.testNamed p (.branch r) = s.source.isTitled .test p r := by
  rw [testNamed, isMatch, Source.isTitled, ← test?_title h registered]
  cases s.test? (.branch r) <;> rfl

/-- The tests of a suite, of which one is asked for by its name. -/
theorem testsOf_obtains {p : String → Bool} (h : s.Consistent) (legible : s.source.Legible bs)
    (suites : .suite ∈ bs) (tests : .test ∈ bs) (there : s.source.title? .suite r = some t)
    (registered : (s.branch? r).isSome) :
    ∃ s', s.Obtains (testsOf r) ((s.source.below .test r).map .branch) s' ∧
      ((s.source.below .test r).map NodeId.branch).find? (s'.testNamed p) =
        ((s.source.below .test r).find? (s.source.isTitled .test p)).map .branch ∧
      ∀ q ∈ s.source.below .test r, (s'.branch? q).isSome := by
  obtain ⟨s', listed, made⟩ := childList_obtains h legible suites tests there registered
  refine ⟨s', listed, ?_, made⟩
  rw [List.find?_map]
  congr 1
  apply List.find?_congr
  intro q mem
  rw [Function.comp, testNamed_eq listed.consistent (made q mem), listed.explores.source]

/-- Looking for a test gives the way to it. -/
theorem pathToTest_obtains (name : String) (h : s.Consistent) (legible : s.source.Legible bs)
    (suites : .suite ∈ bs) (tests : .test ∈ bs) :
    ∃ s', s.Obtains (pathToTest name) ((s.source.wayToTest name).map .branch) s' := by
  rw [pathToTest, Source.wayToTest]
  cases Text.cutLast '.' name.toList with
  | none => exact ⟨s, obtains_pure h []⟩
  | some parts =>
    simp only
    generalize String.ofList parts.1 = upper
    obtain ⟨s₁, descended, reached⟩ := routeToSuite_obtains upper h legible suites
    have source := descended.explores.source
    by_cases onward : s.source.leads upper .root = true
    · have registered := reached onward
      have last : (s.source.wayTo upper).getLast? = some (s.source.goal upper) := by
        rw [Source.wayTo_of_leads onward, Route.line, List.getLast?_concat]
      have same : s₁.hasFullName upper (s.source.goal upper) =
          s.source.isNamed .suite upper (s.source.goal upper) := by
        rw [hasFullName_eq descended.consistent registered, source]
      rw [← same]
      by_cases named : s₁.hasFullName upper (s.source.goal upper) = true
      · obtain ⟨t, there, -⟩ := Source.isNamed_iff.1 (same.symm.trans named)
        have there' : s₁.source.title? .suite (s.source.goal upper) = some t := by
          rw [source]
          exact there
        rw [← source] at legible
        obtain ⟨s₂, listed, found, -⟩ := testsOf_obtains (p := (· == name)) descended.consistent
          legible suites tests there' registered
        refine ⟨s₂, descended.bind ?_⟩
        simp only [last]
        refine (obtains_get descended.consistent).bind ?_
        rw [if_pos named, if_pos named]
        refine listed.bind ((obtains_get listed.consistent).bind ?_)
        rw [found, List.map_append, source, Option.toList_map]
        exact obtains_pure listed.consistent _
      · refine ⟨s₁, descended.bind ?_⟩
        simp only [last]
        refine (obtains_get descended.consistent).bind ?_
        rw [if_neg named, if_neg named, List.append_nil]
        exact obtains_pure descended.consistent _
    · have nowhere : s.source.wayTo upper = [] := if_neg onward
      have other : ¬s.source.isNamed .suite upper (s.source.goal upper) = true :=
        fun named => onward (Source.leads_root (Source.leads_of_isNamed named))
      refine ⟨s₁, descended.bind ?_⟩
      rw [if_neg other, nowhere]
      exact obtains_pure descended.consistent []

/-- In a report whose suites and tests can all be read, in which no two suites have the same full
name and no suite has a dot in its own name, and whatever has been read of it: the ids that are
given for a full name are none or those from the root to some node, and that node is a test with the
name exactly when there is a test with the name that has no dot in its own name. -/
theorem path_to_test_reaches_undotted (h : s.Reachable)
    (legible : s.source.Legible [.suite, .test]) (named : s.source.WellNamed) (name : String) :
    ∃ chain s', (pathToTest name).run s = (.ok chain, s') ∧
      (chain = [] ∨ ∃ q : Route, chain = q.chain) ∧
      ((∃ q : Route, chain = q.chain ∧ s.source.isNamed .test name q = true) ↔
        ∃ (q : Route) (t : Title), s.source.title? .test q = some t ∧ t.full = name ∧
          '.' ∉ t.own.toList) := by
  obtain ⟨s', looked⟩ := pathToTest_obtains name h.consistent legible (by simp) (by simp)
  refine ⟨_, s', looked.run, ?_, ?_⟩
  · simp only [chain_eq_iff, List.map_eq_nil_iff]
    rcases s.source.wayToTest_cases name with none | ⟨q, -, way, -⟩ | ⟨q, i, -, -, way, -⟩
    · exact .inl none
    · exact .inr ⟨q, way⟩
    · exact .inr ⟨_, way⟩
  · simp only [chain_eq_iff]
    constructor
    · rintro ⟨q, way, isTest⟩
      obtain ⟨t, test, full⟩ := Source.isNamed_iff.1 isTest
      exact ⟨q, t, test, full, Source.undotted_of_wayToTest way test full⟩
    · rintro ⟨q, t, test, full, undotted⟩
      exact Source.wayToTest_of_undotted named test full undotted

/-! ## A dot in a name -/

/-- A root suite with a suite that has a test, and with a test whose own name has a dot. -/
def dotted : String :=
  "\x7b\"version\":2,\"generatedMillis\":0,\"baseMillis\":0,
    \"strings\":[\"*\",\"*Root\",\"*A\",\"*t\",\"*a.b\"],\"suite\":[1,0,0,0,[],[1,0,1],
    [[2,0,0,0,[],[1,0,1],[],[[3,0,0,0,[],[1,0,1],[]]],[],[0,0,0,0]]],
    [[4,0,0,0,[],[1,0,1],[]]],[],[0,0,0,0]],\"stats\":[]\x7d"

/-- The test of the suite below the root. -/
def plainTest : Route :=
  .child (.child .root ⟨.suite, 0⟩) ⟨.test, 0⟩

/-- The test of the root suite. -/
def dottedTest : Route :=
  .child .root ⟨.test, 0⟩

set_option maxRecDepth 2000 in
/-- The test without a dot in its own name is reached. -/
theorem path_to_test_reaches_undotted_sample : ∃ (s s' : Session) (chain : List NodeId) (q : Route),
    s.Reachable ∧ s.source.Legible [.suite, .test] ∧ s.source.WellNamed ∧
    (pathToTest "Root.A.t").run s = (.ok chain, s') ∧ chain = q.chain ∧
    s.source.isNamed .test "Root.A.t" q = true := by
  have opens : opensTo (fun s => s.source.isWhole 4 && s.source.isWellNamed &&
      (s.source.title? .test plainTest).any fun t =>
        t.full == "Root.A.t" && !t.own.toList.contains '.') dotted = true :=
    opensTo_ofList (by decide +kernel)
  obtain ⟨s, opened, checked⟩ := opensTo_iff.1 opens
  simp only [Bool.and_eq_true, Option.any_eq_true] at checked
  obtain ⟨⟨isWhole, isWellNamed⟩, t, there, full, undotted⟩ := checked
  have reachable : s.Reachable := ⟨dotted, s, [], opened, by simp, rfl⟩
  have legible := (Source.whole_of_isWhole isWhole).legible [.suite, .test]
  have wellNamed := Source.wellNamed_of_isWellNamed isWellNamed
  obtain ⟨chain, s', looked, -, reaches⟩ :=
    path_to_test_reaches_undotted reachable legible wellNamed "Root.A.t"
  obtain ⟨q, ended, test⟩ :=
    reaches.2 ⟨plainTest, t, there, eq_of_beq full, by simpa using undotted⟩
  exact ⟨s, s', chain, q, reachable, legible, wellNamed, looked, ended, test⟩

set_option maxRecDepth 2000 in
/-- For the full name of the other test only the root suite is given. -/
theorem dotted_test_is_missed : ∃ s s' : Session, s.Reachable ∧
    s.source.Legible [.suite, .test] ∧ s.source.WellNamed ∧
    s.source.isNamed .test "Root.a.b" dottedTest = true ∧
    (pathToTest "Root.a.b").run s = (.ok Route.root.chain, s') ∧
    ¬∃ q : Route, Route.root.chain = q.chain ∧ s.source.isNamed .test "Root.a.b" q = true := by
  have opens : opensTo (fun s => s.source.isWhole 4 && s.source.isWellNamed &&
      s.source.isNamed .test "Root.a.b" dottedTest &&
      s.gives (pathToTest "Root.a.b") Route.root.chain) dotted = true :=
    opensTo_ofList (by decide +kernel)
  obtain ⟨s, opened, checked⟩ := opensTo_iff.1 opens
  simp only [Bool.and_eq_true] at checked
  obtain ⟨⟨⟨isWhole, isWellNamed⟩, named⟩, given⟩ := checked
  obtain ⟨s', looked⟩ := gives_iff.1 given
  refine ⟨s, s', ⟨dotted, s, [], opened, by simp, rfl⟩,
    (Source.whole_of_isWhole isWhole).legible _, Source.wellNamed_of_isWellNamed isWellNamed, named,
    looked, ?_⟩
  rintro ⟨q, same, other⟩
  rw [← Route.line_injective (chain_eq_iff.1 same)] at other
  obtain ⟨t, test, -⟩ := Source.isNamed_iff.1 other
  cases Source.title?_root test

end Session

end RunReport
