import RunReport.Session.Dump
import RunReport.Session.Names
import RunReport.Session.Views
/-!
# Sessions step by step

Everything that can be asked of a session, as data, with the answer to each question. Questions
about a node name it by its id, which finds a node made before, or by the name it is held under.
Questions about the report have no answer once it is dropped; dropping it again changes nothing.
-/

namespace RunReport.Session

inductive Target where
  | id (text : String)
  | held (name : String)

/-- What to look for below a suite. -/
inductive SuiteQuery where
  | all
  | critical
  | tag (tag : String)
  | tagQuery (query : String)
  | name (pattern : String)
  | suites (pattern : String)
  | findSuite (fullName : String)

inductive RenderFormat where
  | console
  | data
  | page
  deriving DecidableEq

/-- What to render. -/
inductive RenderSubject where
  | report (combined : List (String × Option String))
  | node (id : String) (chain : List String)
  | tests (title query : String)
  | errors

structure RenderRequest where
  subject : RenderSubject
  format : RenderFormat
  pretty : Bool
  options : Render.ConsoleOptions

inductive NodeStep where
  | peek
  | describe
  | dump (load : Bool)
  | child (kind : NodeKind) (index : Nat)
  | children
  | list (kind : NodeKind)
  | message (index : Nat)
  | parent
  | loaded
  | whenReady (label : String)
  | hold (name : String)
  /-- Whether this is the node with another id, which the report looks up. -/
  | same (other : Option String)
  | search (query : SuiteQuery)

inductive ReportStep where
  | version
  | suite
  | generated
  | errors
  | statistics
  | find (path : String)
  | resolve (path label : String)
  | resolvePath (path label : String)
  | keywordPath (path label : String)
  | resolveFuture (path label : String)
  | fileFuture (file label : String)
  | pathToSuite (name : String)
  | pathToTest (name : String)
  | announce (file payload : String)
  | pump
  | pop
  | counters
  | fileState (file : String)
  | tagSearch (query : String)
  | statSearch (index : Nat)
  | combined (query : String) (name : Option String)
  | render (request : RenderRequest)
  | drop

inductive Step where
  | node (target : Target) (step : NodeStep)
  | report (step : ReportStep)
  | poll (label : String)

structure Counters where
  nodes : Nat
  strings : Nat
  decompressions : Nat
  requests : Nat
  pending : List String
  queued : Nat

inductive Answer where
  | done
  | nothing
  | notLoaded
  | dropped
  | noFuture
  | pending
  | failed (e : Error)
  | flag (b : Bool)
  | count (n : Nat)
  | text (s : String)
  | texts (ss : List String)
  | flags (a b : Bool)
  | peek (p : Peek)
  | peeks (ps : List Peek)
  | id (id : NodeId)
  | ids (ids : List NodeId)
  | description (d : Description)
  | descriptions (ds : List Description)
  | dump (d : Dump)
  | statistics (s : Statistics)
  | combined (stat : TagStat) (tests : List NodeId)
  | settled (r : Except Error FutureValue)
  | counters (c : Counters)

/-- Runs a computation; its failure is the answer. -/
def answer (x : Run Answer) : StateM Session Answer := do
  match ← x.run with
  | .ok a => return a
  | .error e => return .failed e

/-- A node made before, while the session is open. -/
def loaded? (s : Session) (text : String) : Option NodeId := do
  let id ← NodeId.ofText? text
  if s.isOpen && (s.node? id).isSome then some id else none

def target? (s : Session) : Target → Option NodeId
  | .id text => s.loaded? text
  | .held name => s.held.lookup name

def branchOf? : NodeKind → Option Branch
  | .suite => some .suite
  | .test => some .test
  | .keyword => some .keyword
  | .message => none

def peekAnswer (id : Option NodeId) : Run Answer := do
  match id.bind (← get).peek? with
  | some p => return .peek p
  | none => return .nothing

def idsAnswer (ids : List NodeId) : Answer := .ids ids

def searchAnswer (r : Route) : SuiteQuery → Run Answer
  | .all => idsAnswer <$> allTests r
  | .critical => idsAnswer <$> criticalTests r
  | .tag tag => idsAnswer <$> searchTests (·.hasTag tag) r
  | .tagQuery query => idsAnswer <$> searchTests (·.matchesQuery query) r
  | .name pattern => idsAnswer <$> searchTests (·.matchesName pattern) r
  | .suites pattern => idsAnswer <$> testsInSuites pattern r
  | .findSuite name => do
    match ← findSuite name r with
    | some found => return .id (.branch found)
    | none => return .nothing

def nodeAnswer (files : Files) (id : NodeId) : NodeStep → Run Answer
  | .peek => peekAnswer (some id)
  | .describe => do
    match ← describe id with
    | some d => return .description d
    | none => return .notLoaded
  | .dump load => do
    match ← dump (if load then some files else none) id with
    | d :: _ => return .dump d
    | [] => return .notLoaded
  | .child kind index => do
    match branchOf? kind with
    | none => return .nothing
    | some branch => peekAnswer (← child id ⟨branch, index⟩)
  | .children => do
    match ← children id with
    | none => return .nothing
    | some ids => return .peeks (ids.filterMap (← get).peek?)
  | .list kind => do
    match ← typedList id kind with
    | none => return .nothing
    | some ids => return .ids ids
  | .message index => do
    match ← messageAt id index with
    | none => return .nothing
    | some m =>
      match ← describe m with
      | some d => return .description d
      | none => return .nothing
  | .parent => do
    peekAnswer (((← get).owner? id).map .branch)
  | .loaded => do
    return .flag ((((← get).node? id).map Node.isLoaded).getD true)
  | .whenReady label => do
    liftM (whenReady id (.notify label))
    return .done
  | .hold name => do
    modify fun s => { s with held := (name, id) :: s.held.filter (·.1 != name) }
    return .done
  | .same other => do
    let s ← get
    match other with
    | some text =>
      if s.isOpen then
        match s.loaded? text with
        | some o => return .flag (id == o)
        | none => return .notLoaded
      else return .dropped
    | none => return .dropped
  | .search query => do
    match id with
    | .branch r =>
      match (← get).suite? r with
      | some _ => searchAnswer r query
      | none => return .nothing
    | .message _ => return .nothing

def describeAll : List NodeId → Run (List Description)
  | [] => return []
  | id :: ids => do
    let first ← describe id
    let rest ← describeAll ids
    return first.toList ++ rest

def combinedStats : List (String × Option String) → Run (List TagStat)
  | [] => return []
  | (query, name) :: rest => do
    let stat ← combinedStat query name
    let others ← combinedStats rest
    return stat :: others

/-- The text shown for a node that is not there. -/
def notLoadedText : String := "<not loaded>"

def renderText (r : RenderRequest) : Run String := do
  match r.subject with
  | .report combined =>
    let stats ← combinedStats combined
    match r.format with
    | .console => consoleReport r.options stats
    | .data => dataReport r.pretty stats
    | .page => pageReport stats
  | .node text chain =>
    match (← get).loaded? text with
    | none => return notLoadedText
    | some id =>
      if r.format = .data then dataNode r.pretty chain id else consoleNode r.options chain id
  | .tests title query =>
    let ids ← searchByTag query
    if r.format = .data then dataTests r.pretty ids else consoleTests r.options title ids
  | .errors =>
    let ids ← errorList
    if r.format = .data then dataErrors r.pretty ids else consoleErrors r.options ids

def countersOf (s : Session) : Counters :=
  { nodes := s.nodes.length, strings := s.strings.size
    decompressions := s.strings.decompressions, requests := s.loader.requests
    pending := s.loader.pendingFiles, queued := s.loader.queue.length }

def remember (label : String) (n : Nat) : StateM Session Unit :=
  modify fun s => { s with labels := (label, n) :: s.labels.filter (·.1 != label) }

def reportAnswer (files : Files) : ReportStep → Run Answer
  | .version => do return .count (← get).coding.version.number
  | .suite => do
    let root ← rootSuite
    peekAnswer (some root)
  | .generated => do
    let t := (← get).generated
    return .texts [Times.showDateTime t, Times.showDate t, Times.showTime t]
  | .errors => do return .descriptions (← describeAll (← errorList))
  | .statistics => .statistics <$> statistics
  | .find path => do
    peekAnswer ((← get).loaded? path)
  | .resolve path label => do
    resolve path (.callback label)
    return .done
  | .resolvePath path label => do
    liftM (resolvePath path (.callback label))
    return .done
  | .keywordPath path label => do
    pathToKeyword path (.callback label)
    return .done
  | .resolveFuture path label => do
    let n ← resolveFuture path
    liftM (remember label n)
    return .done
  | .fileFuture file label => do
    let n ← liftM (fileFuture file)
    liftM (remember label n)
    return .done
  | .pathToSuite name => .ids <$> pathToSuite name
  | .pathToTest name => .ids <$> pathToTest name
  | .announce file payload => do
    let p ← SplitPayload.read payload
    liftM (announce file p)
    return .done
  | .pump => do
    match ← liftM (pumpFiles files) with
    | .ok n => return .count n
    | .error e => throw e
  | .pop => do
    let s ← get
    let (file, loader) := s.loader.pop
    set { s with loader }
    match file with
    | some f => return .text f
    | none => return .nothing
  | .counters => do return .counters (← get).countersOf
  | .fileState file => do
    let l := (← get).loader
    return .flags (l.isRequested file) (l.isLoaded file)
  | .tagSearch query => .ids <$> searchByTag query
  | .statSearch index => do
    let stats ← statistics
    match stats.tag[index]? with
    | none => return .ids []
    | some stat =>
      let _ ← rootSuite
      .ids <$> testsOfStat stat .root
  | .combined query name => do
    let stat ← combinedStat query name
    let tests ← testsOfStat stat .root
    return .combined stat tests
  | .render request => .text <$> renderText request
  | .drop => do
    modify close
    return .done

/-- A settled future is answered once. -/
def pollAnswer (label : String) : StateM Session Answer := do
  let s ← get
  match s.labels.lookup label with
  | none => return .noFuture
  | some n =>
    match s.futures[n]?.bind (·.settled) with
    | none => return .pending
    | some r =>
      set { s with labels := s.labels.filter (·.1 != label) }
      return .settled r

/-- Everything but dropping needs the report. -/
def ReportStep.needsReport : ReportStep → Bool
  | .drop => false
  | _ => true

def stepAnswer (files : Files) : Step → StateM Session Answer
  | .poll label => pollAnswer label
  | .report step => do
    if !step.needsReport || (← get).isOpen then answer (reportAnswer files step)
    else return .dropped
  | .node target step => do
    match (← get).target? target with
    | none => return .notLoaded
    | some id => answer (nodeAnswer files id step)

/-- One step: its answer, and the callbacks that ran. -/
def step (files : Files) (st : Step) : StateM Session (Answer × List Event) := do
  modify fun s => { s with fired := [] }
  let a ← stepAnswer files st
  return (a, (← get).fired)

end RunReport.Session
