import RunReport.Session.Resolve
import RunReport.Session.Search
/-!
# Looking up names

From a full name to the ids on the way to the suite, test or keyword that has it. A name leads into
a suite when the suite's full name is that name or a start of it that ends before a dot.
-/

namespace RunReport.Session

/-- Whether `candidate` is `name` or an ancestor's name of it. -/
def isNameStart (candidate name : String) : Bool :=
  name == candidate ||
    match Text.after? candidate.toList name.toList with
    | some ('.' :: _) => true
    | _ => false

def leadsTo (s : Session) (name : String) (r : Route) : Bool :=
  match s.suite? r with
  | some suite => isNameStart suite.fullName name
  | none => false

/-- Goes down from a suite, collecting the routes below it. -/
def descendFrom (name : String) : (depth : Nat) → Route → Run (List Route)
  | 0, _ => return []
  | depth + 1, r => do
    if (← get).hasFullName name r then return []
    else
      let below ← suitesOf r
      let s ← get
      match below.find? (s.leadsTo name) with
      | none => return []
      | some next => return next :: (← descendFrom name depth next)

def routeToSuite (name : String) : Run (List Route) := do
  let _ ← rootSuite
  let s ← get
  if s.leadsTo name .root then
    return .root :: (← descendFrom name s.suiteDepth .root)
  else return []

/-- Ids from the root to the suite with the full name, or as far as they lead to it. -/
def pathToSuite (name : String) : Run (List NodeId) := do
  return (← routeToSuite name).map .branch

def testNamed (s : Session) (p : String → Bool) (id : NodeId) : Bool :=
  s.isMatch (fun t => p t.fullName) id

/-- Ids from the root to the test with the full name. -/
def pathToTest (name : String) : Run (List NodeId) := do
  match Text.cutLast '.' name.toList with
  | none => return []
  | some (above, _) =>
    let suiteName := String.ofList above
    let chain ← routeToSuite suiteName
    let ids := chain.map NodeId.branch
    match chain.getLast? with
    | none => return ids
    | some last =>
      if (← get).hasFullName suiteName last then
        let tests ← testsOf last
        let s ← get
        return ids ++ (tests.find? (s.testNamed (· == name))).toList
      else return ids

/-- The deepest suite or test whose name leads to a path. -/
def ownerFrom (path : String) : (depth : Nat) → Route → Run NodeId
  | 0, r => return .branch r
  | depth + 1, r => do
    let tests ← testsOf r
    match tests.find? ((← get).testNamed (isNameStart · path)) with
    | some t => return t
    | none =>
      let below ← suitesOf r
      match below.find? ((← get).leadsTo path) with
      | some next => ownerFrom path depth next
      | none => return .branch r

/-- Places of keywords, up to the first component that is no number. -/
def keywordSteps : List (List Char) → List Segment
  | [] => []
  | c :: cs =>
    match ordinal? c with
    | some n => ⟨.keyword, n⟩ :: keywordSteps cs
    | none => []

/-- The id text of a keyword below an owner. -/
def keywordId (owner : NodeId) (ownerName path : String) : String :=
  let rest := ((Text.after? ownerName.toList path.toList).getD []).dropWhile (· == '.')
  let components := (Text.cut ['.'] rest).filter (!·.isEmpty)
  (keywordSteps components).foldl (fun id step => id ++ "-" ++ step.text) owner.text

/-- Resolves a keyword path: a full name followed by places counted from zero. -/
def pathToKeyword (path : String) (sink : Sink) : Run Unit := do
  let _ ← rootSuite
  let s ← get
  if s.leadsTo path .root then
    let owner ← ownerFrom path s.suiteDepth .root
    let ownerName := (((← get).node? owner).map Node.pathBase).getD ""
    liftM (resolvePath (keywordId owner ownerName path) sink)
  else liftM (deliver sink (.ok []))

end RunReport.Session
