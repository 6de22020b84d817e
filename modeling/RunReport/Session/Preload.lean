import RunReport.Disk
import RunReport.Session.Resolve
/-!
# Reading a node from a disk

Resolves a path, or loads all keywords below a node, with the split files served from a directory.
-/

namespace RunReport.Session

/-- Why a node cannot be read from a disk. -/
inductive BrowseError where
  /-- A split file that cannot be served. -/
  | splitFile (dir : Path) (cause : Error)
  /-- A record that cannot be decoded. -/
  | record (cause : Error)
  | neverArrived (path : String)
  | noNode (path : String)
  /-- More keywords than were to be loaded. -/
  | endless (id : NodeId)

/-- A computation in a session that may look at a disk. -/
abbrev Browse (m : Type → Type) (α : Type) := ExceptT BrowseError (StateT Session m) α

variable {m : Type → Type} [Monad m]

def inSession {α : Type} (x : Run α) : Browse m α := do
  let (result, s) := x.run (← get)
  set s
  match result with
  | .ok a => return a
  | .error e => throw (.record e)

/-- The text of a split file. -/
def readSplit (disk : Disk m) (dir : Path) (file : String) : m (Except Error String) := do
  match ← disk.read (dir.join file) with
  | some text => return .ok text
  | none => return .error .unreadable

/-- Serves all requests from a directory. -/
def serve (disk : Disk m) (dir : Path) : Browse m Unit := do
  let (served, s) ← (pump (readSplit disk dir) (← get) : m (Except Error Nat × Session))
  set s
  match served with
  | .ok _ => return ()
  | .error e => throw (.splitFile dir e)

/-- The ids on a path, as far as it leads, with the split files on the way. -/
def browse (disk : Disk m) (dir : Path) (path : String) : Browse m (List NodeId) := do
  let n ← inSession (resolveFuture path)
  serve disk dir
  match (← get).futures[n]?.bind (·.settled) with
  | some (.ok (.chain ids)) => return ids
  | some (.error e) => throw (.record e)
  | _ => throw (.neverArrived path)

/-- The last node on a path, with the ids that lead to it. -/
def browseNode (disk : Disk m) (dir : Path) (path : String) : Browse m (List NodeId × NodeId) := do
  let chain ← browse disk dir path
  let s ← get
  match chain.getLast?.filter fun id => (s.node? id).isSome with
  | some id => return (chain, id)
  | none => throw (.noNode path)

def isKeyword : NodeId → Bool
  | .branch (.child _ step) => step.branch = .keyword
  | _ => false

/-- Loads the children of the pending nodes, and of the keywords found below them, newest first. -/
def preloadFrom (disk : Disk m) (dir : Path) : (fuel : Nat) → List NodeId → Browse m Unit
  | _, [] => return ()
  | 0, id :: _ => throw (.endless id)
  | fuel + 1, id :: pending => do
    inSession (liftM (whenReady id .nothing))
    serve disk dir
    match ← inSession (children id) with
    | none => preloadFrom disk dir fuel pending
    | some ids => preloadFrom disk dir fuel ((ids.filter isKeyword).reverse ++ pending)

/-- Split files that refer to each other in a circle have keywords without end. -/
def preloadLimit : Nat := 1 <<< 40

/-- Loads all keywords below a node. -/
def preload (disk : Disk m) (dir : Path) (id : NodeId) : Browse m Unit :=
  preloadFrom disk dir preloadLimit [id]

end RunReport.Session
