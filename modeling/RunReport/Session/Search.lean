import RunReport.Query.Tags
import RunReport.Session.Read
import RunReport.Statistics.Table
/-!
# Searching

Tests are listed depth first, those of the suites below before a suite's own. Suites nest no deeper
than the records of the report, which bounds every walk over them.
-/

namespace RunReport

def Test.hasTag (t : Test) (tag : String) : Bool :=
  Query.containsTag t.record.tags tag

def Test.matchesQuery (t : Test) (query : String) : Bool :=
  Query.tagsMatch t.record.tags query

def Test.matchesName (t : Test) (pattern : String) : Bool :=
  (Query.Matcher.ofPattern pattern).acceptsAny [t.record.name, t.fullName]

namespace Session

def suite? (s : Session) (r : Route) : Option Suite :=
  match s.branch? r with
  | some (.suite suite) => some suite
  | _ => none

def test? (s : Session) (id : NodeId) : Option Test :=
  match s.node? id with
  | some (.test t) => some t
  | _ => none

/-- Routes of the nodes that have one. -/
def routes (ids : List NodeId) : List Route :=
  ids.filterMap fun
    | .branch r => some r
    | .message _ => none

def suitesOf (r : Route) : Run (List Route) := do
  return routes (← childList r .suite)

def testsOf (r : Route) : Run (List NodeId) :=
  childList r .test

/-- Enough levels for every suite of the report. -/
def suiteDepth (s : Session) : Nat :=
  s.suite.depth + 1

def isMatch (s : Session) (p : Test → Bool) (id : NodeId) : Bool :=
  match s.test? id with
  | some t => p t
  | none => false

/-- What a walk finds below each of the suites, in order. -/
def flatMapRun {α : Type} (f : Route → Run (List α)) : List Route → Run (List α)
  | [] => return []
  | r :: rs => do
    let first ← f r
    let rest ← flatMapRun f rs
    return first ++ rest

def searchFrom (p : Test → Bool) : (depth : Nat) → Route → Run (List NodeId)
  | 0, _ => return []
  | depth + 1, r => do
    let below ← flatMapRun (searchFrom p depth) (← suitesOf r)
    let own ← testsOf r
    let s ← get
    return below ++ own.filter (s.isMatch p)

/-- Tests below a suite that satisfy a condition. -/
def searchTests (p : Test → Bool) (r : Route) : Run (List NodeId) := do
  searchFrom p (← get).suiteDepth r

def allTests (r : Route) : Run (List NodeId) :=
  searchTests (fun _ => true) r

def criticalTests (r : Route) : Run (List NodeId) :=
  searchTests (·.record.critical) r

/-- Tests that a tag statistics row counts. -/
def testsOfStat (t : TagStat) (r : Route) : Run (List NodeId) :=
  match t.combined with
  | some query => searchTests (·.matchesQuery query) r
  | none => searchTests (·.hasTag t.row.label) r

def suiteMatches {engine : Query.Engine} (m : Query.Matcher engine) (suite : Option Suite) : Bool :=
  match suite with
  | some s => m.acceptsAny [s.fullName, s.record.name]
  | none => false

def inMatchingFrom {engine : Query.Engine} (m : Query.Matcher engine) :
    (depth : Nat) → Route → Run (List NodeId)
  | 0, _ => return []
  | depth + 1, r => do
    if suiteMatches m ((← get).suite? r) then allTests r
    else flatMapRun (inMatchingFrom m depth) (← suitesOf r)

/-- All tests of the suites whose name or full name matches. -/
def testsInSuites (pattern : String) (r : Route) : Run (List NodeId) := do
  inMatchingFrom (Query.Matcher.ofPattern pattern) (← get).suiteDepth r

/-- The first suite in a list for which the search finds one. -/
def findFirst (f : Route → Run (Option Route)) : List Route → Run (Option Route)
  | [] => return none
  | r :: rs => do
    match ← f r with
    | some found => return some found
    | none => findFirst f rs

def hasFullName (s : Session) (name : String) (r : Route) : Bool :=
  match s.suite? r with
  | some suite => suite.fullName == name
  | none => false

def findSuiteFrom (name : String) : (depth : Nat) → Route → Run (Option Route)
  | 0, _ => return none
  | depth + 1, r => do
    if (← get).hasFullName name r then return some r
    else findFirst (findSuiteFrom name depth) (← suitesOf r)

/-- This suite or the first one below it with the full name. -/
def findSuite (name : String) (r : Route) : Run (Option Route) := do
  findSuiteFrom name (← get).suiteDepth r

/-! ## The whole report -/

/-- Tests of the report whose tags satisfy a query. -/
def searchByTag (query : String) : Run (List NodeId) := do
  let _ ← rootSuite
  searchTests (·.matchesQuery query) .root

def statistics : Run Statistics := do
  Statistics.ofRaw (← get).stats

def countStatus (s : Session) (status : Status) (ids : List NodeId) : Nat :=
  ids.countP (s.isMatch fun t => t.status = status)

/-- A statistics row for a tag query, counted over the tests of the report. -/
def combinedStat (query : String) (name : Option String) : Run TagStat := do
  let ids ← searchByTag query
  let s ← get
  return { row := .ofCounts (name.getD query)
             ⟨s.countStatus .pass ids, s.countStatus .fail ids, s.countStatus .notRun ids⟩
           doc := "", links := [], combined := some query, info := some "combined" }

end Session

end RunReport
