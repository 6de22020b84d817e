import RunReport.Session.Search
/-!
# Views of the tree

What a rendering shows, gathered from a session before anything is written: an outline of suites and
tests, a keyword with all that is loaded below it, or a plain summary of a node. Each rendering reads
the tree in its own order, and the first failure in that order is the one reported.
-/

namespace RunReport

structure TestEntry where
  id : NodeId
  test : Test
  message : String

/-- A suite, the suites below it and its own tests. -/
inductive Outline where
  | suite (id : NodeId) (suite : Suite) (doc message : String) (below : List Outline)
      (tests : List TestEntry)

/-- A keyword with the keywords below it, if they are loaded, and its messages. -/
inductive KeywordTree where
  | keyword (keyword : Keyword) (doc : String) (below : Option (List KeywordTree))
      (messages : List Message)

/-- A node with its children, if they are loaded. -/
inductive Summary where
  | node (id : NodeId) (node : Node) (children : Option (List Summary))

namespace Session

def mapRun {α β : Type} (f : α → Run β) : List α → Run (List β)
  | [] => return []
  | a :: as => do
    let b ← f a
    let rest ← mapRun f as
    return b :: rest

def flatRun {α β : Type} (f : α → Run (List β)) (as : List α) : Run (List β) := do
  return (← mapRun f as).flatten

/-- The entry of a test, with its message when it is wanted. -/
def testEntry (wanted : Test → Bool) (id : NodeId) : Run (List TestEntry) := do
  match (← get).test? id with
  | none => return []
  | some test =>
    let message ← if wanted test then statusMessage id else pure ""
    return [⟨id, test, message⟩]

/-- Documentation if it is wanted, then the suites below with all they contain, then the tests with
the messages of those that failed. -/
def textOutline (withDoc : Bool) : (depth : Nat) → Route → Run (List Outline)
  | 0, _ => return []
  | depth + 1, r => do
    match (← get).suite? r with
    | none => return []
    | some suite =>
      let doc ← if withDoc then doc (.branch r) else pure ""
      let below ← flatRun (textOutline withDoc depth) (← suitesOf r)
      let tests ← flatRun (testEntry (·.status = .fail)) (← testsOf r)
      return [.suite (.branch r) suite doc "" below tests]

/-- The message of the suite, then the suites below, then the tests with their messages. -/
def dataOutline : (depth : Nat) → Route → Run (List Outline)
  | 0, _ => return []
  | depth + 1, r => do
    match (← get).suite? r with
    | none => return []
    | some suite =>
      let message ← statusMessage (.branch r)
      let below ← flatRun (dataOutline depth) (← suitesOf r)
      let tests ← flatRun (testEntry fun _ => true) (← testsOf r)
      return [.suite (.branch r) suite "" message below tests]

/-- The suites and tests of a suite before anything further down. -/
def pageOutline : (depth : Nat) → Route → Run (List Outline)
  | 0, _ => return []
  | depth + 1, r => do
    match (← get).suite? r with
    | none => return []
    | some suite =>
      let suites ← suitesOf r
      let tests ← flatRun (testEntry fun _ => false) (← testsOf r)
      let below ← flatRun (pageOutline depth) suites
      return [.suite (.branch r) suite "" "" below tests]

def messages (s : Session) (ids : List NodeId) : List Message :=
  ids.filterMap fun id =>
    match s.node? id with
    | some (.message m) => some m
    | _ => none

/-- Documentation if it is wanted, then the keywords below with all they contain, then messages. -/
def keywordTree (withDoc : Bool) : (depth : Nat) → NodeId → Run (List KeywordTree)
  | 0, _ => return []
  | depth + 1, id => do
    match id, (← get).node? id with
    | .branch r, some (.keyword k) =>
      let doc ← if withDoc then doc (.branch r) else pure ""
      let below ← match ← typedList id .keyword with
        | none => pure none
        | some ids => some <$> flatRun (keywordTree withDoc depth) ids
      let messages ← childList r .message
      return [.keyword k doc below ((← get).messages messages)]
    | _, _ => return []

/-- All children of a node before anything further down. -/
def summaryFrom : (depth : Nat) → NodeId → Run (List Summary)
  | 0, _ => return []
  | depth + 1, id => do
    match (← get).node? id with
    | none => return []
    | some _ =>
      let below ← match ← children id with
        | none => pure none
        | some ids => some <$> flatRun (summaryFrom depth) ids
      match (← get).node? id with
      | none => return []
      | some n => return [.node id n below]

end Session

end RunReport
