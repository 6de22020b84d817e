import RunReport.Session.Basic
/-!
# Making nodes

A record becomes a node when its place in the tree is first visited. A node that exists is never
made again. A test or suite needs to know whether a teardown above it failed, and for that the last
keyword of its suite is made first.
-/

namespace RunReport.Session

/-- Fails once the session is closed. -/
def checkOpen : Run Unit := do
  if !(← get).isOpen then throw .sessionClosed

def exists? (id : NodeId) : Run Bool := do
  return ((← get).node? id).isSome

def decodeKeyword (owner : Route) (r : Raw) (table : TableRef) (index : Nat) : Run NodeId := do
  let id := NodeId.branch (.child owner ⟨.keyword, index⟩)
  checkOpen
  if ← exists? id then return id
  else
    let s ← get
    let record ← withTable table (s.coding.keyword r)
    let base := ((s.branch? owner).map Node.pathBase).getD ""
    modify (insertNode id (.keyword
      { record, path := s!"{base}.{index}", table
        keywords := .ofSource record.keywords table
        messages := .ofItems record.messages table }))
    return id

/-- Makes the message after reading its record, because its number is taken last. -/
def decodeMessage (owner : Option Route) (r : Raw) (table : TableRef) : Run NodeId := do
  let record ← withTable table ((← get).coding.message r)
  checkOpen
  let number := (← get).messageCount + 1
  let id := NodeId.message number
  modify fun s => insertNode id (.message ⟨record, owner⟩) { s with messageCount := number }
  return id

/-- Makes the item at `i` of a list of children. -/
def createWith (decode : Route → Raw → TableRef → Nat → Run NodeId) (owner : Route)
    (kind : NodeKind) (i : Nat) : Run NodeId := do
  match (← get).list? owner kind with
  | none => throw .sessionClosed
  | some l =>
    match l.items[i]? with
    | none => throw .sessionClosed
    | some r => decode owner r l.table i

def createKeyword (owner : Route) : Nat → Run NodeId :=
  createWith decodeKeyword owner .keyword

def lastKeyword (owner : Route) : Run (Option NodeId) :=
  (made owner .keyword).last (createKeyword owner)

def isFailedTeardown : Option Node → Bool
  | some (.keyword k) => k.record.type = .teardown && k.record.status = .fail
  | _ => false

/-- Whether the teardown of a suite or of one above it failed. -/
def hasTeardownFailure (suite : Route) : Run Bool := do
  match (← get).branch? suite with
  | some (.suite s) =>
    if s.aboveFailed then return true
    else
      match ← lastKeyword suite with
      | some last => return isFailedTeardown ((← get).node? last)
      | none => return false
  | _ => return false

def fullNameBelow (above : Option Node) (name : String) : String :=
  match above with
  | some (.suite s) => s!"{s.fullName}.{name}"
  | _ => name

/-- A suite below `owner`, or the root suite. -/
def decodeSuiteAt (owner : Option Route) (r : Raw) (table : TableRef) (index : Nat) :
    Run NodeId := do
  let route := match owner with
    | some o => Route.child o ⟨.suite, index⟩
    | none => .root
  let id := NodeId.branch route
  checkOpen
  if ← exists? id then return id
  else
    let record ← withTable table ((← get).coding.suite r)
    let aboveFailed ← match owner with
      | some o => hasTeardownFailure o
      | none => pure false
    let above := owner.bind (← get).branch?
    modify (insertNode id (.suite
      { record, fullName := fullNameBelow above record.name, aboveFailed, table
        suites := .ofItems record.suites table
        tests := .ofItems record.tests table
        keywords := .ofItems record.keywords table }))
    return id

def decodeSuite (owner : Route) (r : Raw) (table : TableRef) (index : Nat) : Run NodeId :=
  decodeSuiteAt (some owner) r table index

def decodeTest (owner : Route) (r : Raw) (table : TableRef) (index : Nat) : Run NodeId := do
  let id := NodeId.branch (.child owner ⟨.test, index⟩)
  checkOpen
  if ← exists? id then return id
  else
    let record ← withTable table ((← get).coding.test r)
    let aboveFailed ← hasTeardownFailure owner
    let above := (← get).branch? owner
    modify (insertNode id (.test
      { record, fullName := fullNameBelow above record.name, aboveFailed, table
        keywords := .ofSource record.keywords table }))
    return id

/-- How children of a kind are made. -/
def decodeChild : NodeKind → Route → Raw → TableRef → Nat → Run NodeId
  | .suite => decodeSuite
  | .test => decodeTest
  | .keyword => decodeKeyword
  | .message => fun owner r table _ => decodeMessage (some owner) r table

def create (owner : Route) (kind : NodeKind) : Nat → Run NodeId :=
  createWith (decodeChild kind) owner kind

/-- The child of a kind at a place among its siblings of that kind. -/
def childAt (owner : Route) (kind : NodeKind) (i : Nat) : Run (Option NodeId) :=
  (made owner kind).get (create owner kind) i

/-- All children of a kind. -/
def childList (owner : Route) (kind : NodeKind) : Run (List NodeId) :=
  (made owner kind).items (create owner kind)

/-- The root suite. -/
def rootSuite : Run NodeId := do
  decodeSuiteAt none (← get).suite .main 0

def createError (i : Nat) : Run NodeId := do
  match (← get).errors.items[i]? with
  | none => throw .sessionClosed
  | some r => decodeMessage none r .main

/-- The execution errors. -/
def errorList : Run (List NodeId) :=
  madeErrors.items createError

end RunReport.Session
