import RunReport.Loader
import RunReport.Node
import RunReport.Payload
/-!
# Sessions

A session holds one report and everything found in it so far: the nodes that have been made, the
split files that have been loaded, and who waits for those that have not. Nodes are made when first
asked for and stay the same from then on. Closing a session drops the report: from then on no node
can be made, and only what is reachable from a node that somebody holds is still there.
-/

namespace RunReport

/-- Who gets the result of a resolution. -/
inductive Sink where
  | callback (label : String)
  | future (number : Nat)
  deriving DecidableEq, Repr

/-- What happens once the children of a node can be read. -/
inductive Continuation where
  | nothing
  | notify (label : String)
  /-- Take a step and go on, with the ids met so far, newest first. -/
  | resolve (step : Segment) (rest : List Segment) (met : List NodeId) (sink : Sink)

inductive Waiter where
  /-- Wants the keywords of a node to be put in place. -/
  | children (node : Route) (next : Continuation)
  /-- Wants the file itself. -/
  | payload (future : Nat)

/-- A callback that ran. -/
inductive Event where
  /-- It was to run once the children of a node can be read, and this is what it saw of them. -/
  | ready (label : String) (id : NodeId) (sight : Option Node.Sight)
  | resolved (label : String) (result : Except Error (List NodeId))

inductive FutureValue where
  | chain (ids : List NodeId)
  | keywords (count : Nat)

/-- A result that is awaited; the name says what it needs. -/
structure Future where
  name : String
  settled : Option (Except Error FutureValue)

structure Session where
  coding : Coding
  generatedMillis : Int
  suite : Raw
  stats : Raw
  strings : StringTable
  /-- Tables of the loaded split files. -/
  splitStrings : List (String × StringTable)
  isOpen : Bool
  /-- Every node made so far, oldest first. -/
  nodes : List (NodeId × Node)
  /-- Texts of nodes that have been read. -/
  texts : List ((NodeId × TextPart) × String)
  messageCount : Nat
  errors : ChildList
  loader : Loader Waiter
  futures : List Future
  /-- Futures by the label they are asked for. -/
  labels : List (String × Nat)
  held : List (String × NodeId)
  fired : List Event

/-- A computation in a session; what it changed stays changed when it fails. -/
abbrev Run (α : Type) := ExceptT Error (StateM Session) α

namespace Session

def start (coding : Coding) (strings : List String) : Session :=
  { coding, generatedMillis := 0, suite := .null, stats := .null
    strings := .ofEntries strings, splitStrings := [], isOpen := true, nodes := []
    texts := [], messageCount := 0, errors := .ofItems [] .main, loader := .empty, futures := []
    labels := [], held := [], fired := [] }

def ofPayload (p : Payload) : Except Error Session := do
  let errors ← p.errors.asList "errors"
  return { start ⟨p.version, p.baseMillis, p.splitLogBase⟩ p.strings with
           generatedMillis := p.generatedMillis, suite := p.suite, stats := p.stats
           errors := .ofItems errors .main }

def open? (text : String) : Except Error Session := do
  ofPayload (← Payload.read text)

/-! ## Nodes -/

def node? (s : Session) (id : NodeId) : Option Node :=
  s.nodes.lookup id

def branch? (s : Session) (r : Route) : Option Node :=
  s.node? (.branch r)

def insertNode (id : NodeId) (n : Node) (s : Session) : Session :=
  { s with nodes := s.nodes ++ [(id, n)] }

def updateIn (id : NodeId) (f : Node → Node) : List (NodeId × Node) → List (NodeId × Node)
  | [] => []
  | (i, n) :: rest => if i = id then (i, f n) :: rest else (i, n) :: updateIn id f rest

def updateNode (id : NodeId) (f : Node → Node) (s : Session) : Session :=
  { s with nodes := updateIn id f s.nodes }

/-- The list of children of one kind. -/
def list? (s : Session) (owner : Route) (kind : NodeKind) : Option ChildList := do
  (← s.branch? owner).list? kind

/-- Where the nodes made from a list of children are kept. -/
def made (owner : Route) (kind : NodeKind) : Place Session NodeId where
  view s := ((s.list? owner kind).map (·.made)).getD (.ofLength 0)
  update f := updateNode (.branch owner) fun n =>
    n.updateList (fun l => { l with made := f l.made }) kind

/-- Where the messages made from the execution errors are kept. -/
def madeErrors : Place Session NodeId where
  view s := s.errors.made
  update f s := { s with errors := { s.errors with made := f s.errors.made } }

/-! ## Strings -/

def tableOf (s : Session) : TableRef → StringTable
  | .main => s.strings
  | .split file => (s.splitStrings.lookup file).getD (.ofEntries [])

def setTable (ref : TableRef) (t : StringTable) (s : Session) : Session :=
  match ref with
  | .main => { s with strings := t }
  | .split file =>
    { s with splitStrings := s.splitStrings.map fun p => if p.1 = file then (file, t) else p }

/-- Looks up strings in one of the tables. -/
def withTable {α : Type} (ref : TableRef) (x : Lookup α) : Run α := do
  let s ← get
  let (result, t) := x.run (s.tableOf ref)
  set (s.setTable ref t)
  result

/-- The text of a slot that is read late. -/
def slotText (ref : TableRef) (slot : Option Raw) : Run String := do
  return (← withTable ref (StringTable.lookup slot)).orEmpty

def text? (s : Session) (id : NodeId) (part : TextPart) : Option String :=
  s.texts.lookup (id, part)

/-- Remembers a text; one that is remembered stays. -/
def keepText (id : NodeId) (part : TextPart) (text : String) (s : Session) : Session :=
  { s with texts := s.texts ++ [((id, part), text)] }

/-- A text that is read at most once without failing. -/
def readOnce (id : NodeId) (part : TextPart) (read : Run String) : Run String := do
  match (← get).text? id part with
  | some text => return text
  | none =>
    let text ← read
    modify (keepText id part text)
    return ((← get).text? id part).getD text

/-! ## Holding on -/

/-- Whether `id` is `held` or one of its descendants that were made, reached through the lists. -/
def reaches (s : Session) (held : NodeId) : Route → Bool
  | .root => held == .root
  | .child owner step =>
    held == .branch (.child owner step)
      || (((s.list? owner step.branch.kind).bind (·.made.slot? step.index)).isSome
          && s.reaches held owner)

/-- Before the session is closed every node is there; afterwards those that are held, with what
hangs on them. -/
def isAlive (s : Session) (r : Route) : Bool :=
  s.isOpen || s.held.any fun h => s.reaches h.2 r

/-- The node above, if it is still there. -/
def owner? (s : Session) (id : NodeId) : Option Route :=
  let above :=
    match id with
    | .branch r => r.owner?
    | .message _ =>
      match s.node? id with
      | some (.message m) => m.owner
      | _ => none
  above.filter s.isAlive

end Session

end RunReport
