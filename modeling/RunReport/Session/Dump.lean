import RunReport.Session.Resolve
/-!
# Dumping a node

A description of a node together with those of everything below it, depth first. On request the
split file of each node is asked for and served before its children are read.
-/

namespace RunReport.Session

/-- Split files by name. -/
abbrev Files := String → Except Error String

/-- Serves all requests from a set of files. -/
def pumpFiles (files : Files) : StateM Session (Except Error Nat) := fun s =>
  pump (m := Id) files s

inductive Dump where
  /-- A leaf. -/
  | message (description : Description)
  /-- A node with the failure to load its children, if they were to be loaded, and its children. -/
  | node (description : Description) (load : Option Error)
      (children : Except Error (Option (List Dump)))

/-- Asks for the children of a node and serves the files; nothing is asked of a closed session. -/
def loadChildren (files : Files) (id : NodeId) : Run (Option Error) := do
  if (← get).isOpen then
    liftM (whenReady id .nothing)
    match ← liftM (pumpFiles files) with
    | .ok _ => return none
    | .error e => return some e
  else return none

def dumpEach (dump : NodeId → Run (List Dump)) : List NodeId → Run (List Dump)
  | [] => return []
  | id :: ids => do
    let first ← dump id
    let rest ← dumpEach dump ids
    return first ++ rest

/-- What stands below a node. -/
def dumpBelow (dump : NodeId → Run (List Dump)) (id : NodeId) :
    Run (Except Error (Option (List Dump))) := do
  match ← attempt (children id) with
  | .error e => return .error e
  | .ok none => return .ok none
  | .ok (some ids) => return .ok (some (← dumpEach dump ids))

/-- `files` are given when children are to be loaded. -/
def loadIf (files : Option Files) (id : NodeId) : Run (Option Error) :=
  match files with
  | some files => loadChildren files id
  | none => return none

def dumpFrom (files : Option Files) : (depth : Nat) → NodeId → Run (List Dump)
  | 0, _ => return []
  | depth + 1, id => do
    match ← describe id with
    | none => return []
    | some (.message v) => return [.message (.message v)]
    | some d =>
      let load ← loadIf files id
      return [.node d load (← dumpBelow (dumpFrom files depth) id)]

/-- Loading can go on for ever when a split file refers to itself; then this many levels are shown. -/
def loadedLevels : Nat := 1000000

def dump (files : Option Files) (id : NodeId) : Run (List Dump) := do
  let bound := (← get).depthBound
  dumpFrom files (if files.isSome then loadedLevels else bound) id

end RunReport.Session
