import RunReport.Session.Decode
/-!
# Reading nodes

Children, texts and descriptions of nodes. Reading makes the nodes it lists, but never asks for a
split file: children in a file that is not loaded are simply not there.
-/

namespace RunReport.Session

/-- The ids of one kind of children; nothing if the node has no such list or it is not loaded. -/
def typedList (id : NodeId) (kind : NodeKind) : Run (Option (List NodeId)) := do
  match id with
  | .message _ => return none
  | .branch r =>
    match (← get).list? r kind with
    | none => return none
    | some _ => return some (← childList r kind)

/-- Children in the order they are shown; nothing while they are in a file that is not loaded. -/
def children (id : NodeId) : Run (Option (List NodeId)) := do
  match id, (← get).node? id with
  | .branch r, some (.suite _) =>
    let keywords ← childList r .keyword
    let tests ← childList r .test
    let suites ← childList r .suite
    return some (keywords ++ tests ++ suites)
  | .branch _, some (.test _) => typedList id .keyword
  | .branch r, some (.keyword _) =>
    match ← typedList id .keyword with
    | none => return none
    | some keywords =>
      let messages ← childList r .message
      return some (keywords ++ messages)
  | _, _ => return some []

/-- A child that a path can lead to. -/
def child (id : NodeId) (step : Segment) : Run (Option NodeId) := do
  match id with
  | .message _ => return none
  | .branch r =>
    match (← get).list? r step.branch.kind with
    | none => return none
    | some _ => childAt r step.branch.kind step.index

/-- A message of a keyword. -/
def messageAt (id : NodeId) (i : Nat) : Run (Option NodeId) := do
  match id with
  | .message _ => return none
  | .branch r =>
    match (← get).list? r .message with
    | none => return none
    | some _ => childAt r .message i

/-- The documentation of a node. -/
def doc (id : NodeId) : Run String := do
  match ((← get).node? id).bind Node.doc? with
  | some (table, slot) => readOnce id .doc (slotText table slot)
  | none => return ""

/-- The message of a suite or test. -/
def statusMessage (id : NodeId) : Run String := do
  match ((← get).node? id).bind Node.message? with
  | some (table, slot, aboveFailed) =>
    readOnce id .message do
      return effectiveMessage (← readOnce id .own (slotText table slot)) aboveFailed
  | none => return ""

/-- Runs a computation and keeps its failure as a value. -/
def attempt {α : Type} (x : Run α) : Run (Except Error α) := do
  try
    return .ok (← x)
  catch e => return .error e

/-- A node in a few words. -/
structure Peek where
  kind : NodeKind
  id : NodeId
  name : String
  status : Option Status

def Peek.of (id : NodeId) (n : Node) : Peek :=
  ⟨n.kind, id, n.name, n.status?⟩

def peek? (s : Session) (id : NodeId) : Option Peek :=
  (s.node? id).map (Peek.of id)

structure SuiteView where
  id : NodeId
  suite : Suite
  doc : Except Error String
  message : Except Error String
  teardownFailure : Except Error Bool
  isRoot : Bool

structure TestView where
  id : NodeId
  test : Test
  doc : Except Error String
  message : Except Error String

structure KeywordView where
  id : NodeId
  keyword : Keyword
  doc : Except Error String

structure MessageView where
  id : NodeId
  message : Message
  owner : Option Route

/-- Everything a node shows of itself. -/
inductive Description where
  | suite (v : SuiteView)
  | test (v : TestView)
  | keyword (v : KeywordView)
  | message (v : MessageView)

def describeNode (id : NodeId) (n : Node) : Run Description := do
  match n with
  | .suite suite =>
    let doc ← attempt (doc id)
    let message ← attempt (statusMessage id)
    let teardownFailure ← attempt (match id with
      | .branch r => hasTeardownFailure r
      | .message _ => pure false)
    let isRoot := ((← get).owner? id).isNone
    return .suite { id, suite, doc, message, teardownFailure, isRoot }
  | .test test =>
    let doc ← attempt (doc id)
    let message ← attempt (statusMessage id)
    return .test { id, test, doc, message }
  | .keyword keyword =>
    let doc ← attempt (doc id)
    return .keyword { id, keyword, doc }
  | .message message => return .message { id, message, owner := (← get).owner? id }

def describe (id : NodeId) : Run (Option Description) := do
  match (← get).node? id with
  | some n => return some (← describeNode id n)
  | none => return none

/-! ## How deep the tree can be -/

end RunReport.Session

namespace RunReport

mutual

/-- How deep lists nest in a value. -/
def Raw.depth : Raw → Nat
  | .list items => depthOfItems items + 1
  | _ => 0

def depthOfItems : List Raw → Nat
  | [] => 0
  | r :: rs => max r.depth (depthOfItems rs)

end

namespace Session

def payloadDepth : FileState Waiter → Nat
  | .loaded p => depthOfItems p.keywords
  | .pending _ => 0

/-- The deepest record of the report and its loaded files. -/
def rawDepth (s : Session) : Nat :=
  s.loader.files.foldl (fun d f => max d (payloadDepth f.2)) s.suite.depth

/-- No chain of readable nodes is longer: between two nodes whose children came from a file it stays
within one document. -/
def depthBound (s : Session) : Nat :=
  (s.nodes.length + 1) * (s.rawDepth + 1)

end Session

end RunReport
