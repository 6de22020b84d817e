import RunReport.Session.Read
/-!
# Waiting and resolving

Children in a split file can be read once the file has been loaded. A resolution walks down a path
and, where a file is missing, leaves a note of how to go on; when the file is announced those who
waited for it go on in the order they came. A host serves the requested files from where it keeps
them.
-/

namespace RunReport.Session

/-! ## Results -/

def fire (e : Event) : StateM Session Unit :=
  modify fun s => { s with fired := s.fired ++ [e] }

def newFuture (name : String) : StateM Session Nat := do
  let s ← get
  set { s with futures := s.futures ++ [Future.mk name none] }
  return s.futures.length

def settleFuture (result : Except Error FutureValue) (f : Future) : Future :=
  { f with settled := some (f.settled.getD result) }

/-- Gives a future its result; the first one counts. -/
def settle (n : Nat) (result : Except Error FutureValue) (s : Session) : Session :=
  { s with futures := s.futures.modify n (settleFuture result) }

def deliver (sink : Sink) (result : Except Error (List NodeId)) : StateM Session Unit :=
  match sink with
  | .callback label => fire (.resolved label result)
  | .future n => modify (settle n (result.map .chain))

/-! ## Children -/

/-- Puts the keywords of a file in place below a node. -/
def install (node : Route) (file : String) (p : SplitPayload) (s : Session) : Session :=
  updateNode (.branch node) (·.install p.keywords (.split file)) s

/-- Whether the children of a node can be read now; if a file is missing, `next` waits for it. -/
def ready (id : NodeId) (next : Continuation) : StateM Session Bool := do
  match id with
  | .message _ => return true
  | .branch r =>
    let s ← get
    match (s.branch? r).bind Node.missingFile? with
    | none => return true
    | some file =>
      let (payload, loader) := s.loader.ensure file (.children r next)
      set { s with loader }
      match payload with
      | none => return false
      | some p =>
        modify (install r file p)
        return true

/-- Walks down from `id`; `met` are the ids on the way, newest first. A step that leads nowhere ends
the walk with what was met. -/
def resolveFrom (sink : Sink) : List Segment → List NodeId → NodeId → StateM Session Unit
  | [], met, _ => deliver sink (.ok met.reverse)
  | step :: rest, met, id => do
    if ← ready id (.resolve step rest met sink) then
      match ← (child id step).run with
      | .error e => deliver sink (.error e)
      | .ok none => deliver sink (.ok met.reverse)
      | .ok (some c) => resolveFrom sink rest (c :: met) c

/-- Tells somebody that the children of a node can be read. -/
def call (id : NodeId) (label : String) : StateM Session Unit := do
  fire (.ready label id (((← get).node? id).map Node.sight))

/-- Goes on at a node whose children can be read. -/
def runNext (id : NodeId) : Continuation → StateM Session Unit
  | .nothing => return ()
  | .notify label => call id label
  | .resolve step rest met sink => resolveFrom sink (step :: rest) met id

def whenReady (id : NodeId) (next : Continuation) : StateM Session Unit := do
  if ← ready id next then runNext id next

/-! ## Files -/

def runWaiter (file : String) (p : SplitPayload) : Waiter → StateM Session Unit
  | .children node next => do
    modify (install node file p)
    runNext (.branch node) next
  | .payload n => modify (settle n (.ok (.keywords p.keywords.length)))

def runWaiters (file : String) (p : SplitPayload) : List Waiter → StateM Session Unit
  | [] => return ()
  | w :: ws => do
    runWaiter file p w
    runWaiters file p ws

/-- Takes the content of a split file. -/
def announce (file : String) (p : SplitPayload) : StateM Session Unit := do
  let s ← get
  if s.loader.isLoaded file then return ()
  else
    let (waiters, loader) := s.loader.announce file p
    set { s with loader, splitStrings := (file, .ofEntries p.strings) :: s.splitStrings }
    runWaiters file p waiters

/-- Serves at most so many requests, first come first served; a file that cannot be read or is no
split file ends it. -/
def serveUpTo {m : Type → Type} [Monad m] (read : String → m (Except Error String)) :
    Nat → Session → m (Except Error Nat × Session)
  | 0, s => return (.ok 0, s)
  | n + 1, s =>
    match s.loader.pop with
    | (none, _) => return (.ok 0, s)
    | (some file, loader) => do
      let s := { s with loader }
      match ← read file with
      | .error e => return (.error e, s)
      | .ok text =>
        match SplitPayload.read text with
        | .error e => return (.error e, s)
        | .ok p =>
          let (_, s) := (announce file p).run s
          let (served, s) ← serveUpTo read n s
          return (served.map (· + 1), s)

/-- Steps that may still ask for a file. -/
def stepsLeft : Waiter → Nat
  | .children _ (.resolve _ rest _ _) => rest.length
  | _ => 0

/-- No more files can be asked for while the queue is served. -/
def requestBound (s : Session) : Nat :=
  s.loader.queue.length + (s.loader.waiters.map stepsLeft).foldr (· + ·) 0

/-- Serves requests until none is left. -/
def pump {m : Type → Type} [Monad m] (read : String → m (Except Error String)) (s : Session) :
    m (Except Error Nat × Session) :=
  serveUpTo read s.requestBound s

/-! ## Paths -/

/-- Resolves a path below the root suite, if that has been made. -/
def resolvePath (path : String) (sink : Sink) : StateM Session Unit := do
  let s ← get
  if s.isOpen && (s.node? .root).isSome then
    resolveFrom sink (parsePath path) [.root] .root
  else deliver sink (.ok [])

/-- Resolves a path, making the root suite first. -/
def resolve (path : String) (sink : Sink) : Run Unit := do
  let _ ← rootSuite
  liftM (resolvePath path sink)

/-- A future for the ids on a path. -/
def resolveFuture (path : String) : Run Nat := do
  let _ ← rootSuite
  let n ← liftM (newFuture path)
  liftM (resolvePath path (.future n))
  return n

/-- A future for the content of a file. -/
def fileFuture (file : String) : StateM Session Nat := do
  let n ← newFuture file
  let s ← get
  let (payload, loader) := s.loader.ensure file (.payload n)
  set { s with loader }
  match payload with
  | none => return n
  | some p =>
    modify (settle n (.ok (.keywords p.keywords.length)))
    return n

/-! ## Closing -/

def awaitedFuture? : Waiter → Option Nat
  | .children _ (.resolve _ _ _ (.future n)) => some n
  | .payload n => some n
  | _ => none

def abandonFuture (s : Session) (n : Nat) : Session :=
  { s with futures := s.futures.modify n fun f => settleFuture (.error (.loadAbandoned f.name)) f }

/-- Closes the session. Futures that wait for a file learn that it will not come. -/
def close (s : Session) : Session :=
  let s' := (s.loader.waiters.filterMap awaitedFuture?).foldl abandonFuture s
  { s' with loader := s.loader.abandon, isOpen := false }

end RunReport.Session
