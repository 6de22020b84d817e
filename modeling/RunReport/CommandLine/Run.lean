import RunReport.CommandLine.Host
import RunReport.CommandLine.Options
import RunReport.Config.Load
import RunReport.Session.Preload
import RunReport.Session.Search
import RunReport.Session.Views
/-!
# Running the program

Shows a report, or the part of it that was asked for, and writes the page of the whole report on
request. The first failure ends the run; what was printed before it stays.
-/

namespace RunReport.CommandLine

open Render Session

inductive Failure where
  | config (cause : ConfigError)
  | report (path : Path) (cause : Error)
  | combinedTag (pattern : String) (cause : Error)
  | browse (cause : BrowseError)
  | page (path : Path)

def browseMessage : BrowseError → String
  | .splitFile dir e => s!"Failed to load split file from {dir.text}: {e.message}"
  | .record e => e.message
  | .neverArrived path => s!"Split files needed for {path} never arrived"
  | .noNode path => s!"No node found at {path}"
  | .endless id => s!"Keywords below {id.text} never end"

def Failure.message : Failure → String
  | .config e => e.message
  | .report path e => s!"Failed to load report: {path.text}: {e.message}"
  | .combinedTag pattern e => s!"Failed to compute combined tag {pattern}: {e.message}"
  | .browse e => browseMessage e
  | .page path => s!"Failed to write HTML report to {path.text}"

def Stop.code : Stop → Nat
  | .usage => 2
  | .version => 0
  | .help => 0

def failureCode : Nat := 2

def versionLine : String := "logview 0.3.0\n"

def helpText : String :=
  "Usage: logview [OPTIONS] <REPORT>\n\n"
    ++ "  -j, --json        Output as JSON\n"
    ++ "      --html FILE   Also write a self-contained HTML report to FILE\n"
    ++ "      --tag QUERY   List tests matching a tag query\n"
    ++ "      --name PATTERN\n"
    ++ "                    List tests whose name or full name matches a wildcard pattern\n"
    ++ "      --path ID     Show one node by id, loading split files as needed\n"
    ++ "      --errors      Show execution errors\n"
    ++ "      --watch       Show the report again when it changes\n"
    ++ "      --config FILE\n"
    ++ "                    Path to config file\n"
    ++ "  -v, --verbose     Show documentation in the outline\n"
    ++ "      --no-color    Disable colored output\n"
    ++ "  -h, --help        Print help\n"
    ++ "  -V, --version     Print version\n"

variable {m : Type → Type} [Monad m]

/-- A line of notes behind a painted label. -/
def noteLine (painted : Bool) (style : Style) (label text : String) : String :=
  (styled style label).paint painted ++ ": " ++ text ++ "\n"

/-- Where a report lies; a bare file name lies in the working directory. -/
def reportDir (report : Path) : Path :=
  match report.parent? with
  | some dir => if dir.text.isEmpty then ⟨"."⟩ else dir
  | none => ⟨"."⟩

/-- Everything that a run goes by. -/
structure Setup where
  options : Options
  config : Config
  painted : Bool

def Setup.console (s : Setup) : ConsoleOptions :=
  ⟨s.painted, s.options.verbose, s.config.shownLevel⟩

def Setup.report (s : Setup) : Path :=
  ⟨s.options.report⟩

def Setup.splitDir (s : Setup) : Path :=
  s.config.splitDirFor (reportDir s.report)

def isWanted {α : Type} (wanted : Option α) (test : α → Bool) : Bool :=
  match wanted with
  | none => true
  | some a => test a

def searchTitle (tag name : Option String) : String :=
  match tag, name with
  | some tag, some name => s!"Tests tagged {tag} named {name}"
  | some tag, none => s!"Tests tagged {tag}"
  | none, some name => s!"Tests named {name}"
  | none, none => "Tests"

/-- Tests that have what is wanted. -/
def search (tag name : Option String) : Run (List NodeId) := do
  let _ ← rootSuite
  searchTests (fun t => isWanted tag t.matchesQuery && isWanted name t.matchesName) .root

def jsonLine (x : Run String) : Run String := do
  return (← x) ++ "\n"

/-- Text about tests, errors or the whole report. -/
def overview (s : Setup) (combined : List TagStat) : Run String := do
  let o := s.options
  if o.tag.isSome || o.name.isSome then
    let ids ← search o.tag o.name
    if o.json then jsonLine (dataTests true ids)
    else consoleTests s.console (searchTitle o.tag o.name) ids
  else if o.errors then
    let ids ← errorList
    if o.json then jsonLine (dataErrors true ids) else consoleErrors s.console ids
  else if o.json then jsonLine (dataReport true combined)
  else consoleReport s.console combined

/-- Text about one node, as far as its path leads. -/
def nodeText (s : Setup) (chain : List NodeId) (id : NodeId) : Run String :=
  let ids := chain.map NodeId.text
  if s.options.json then jsonLine (dataNode true ids id) else consoleNode s.console ids id

def showNode (host : Host m) (s : Setup) (path : String) : Browse m Unit := do
  let (chain, id) ← browseNode host.toDisk s.splitDir path
  if id.text != path then
    host.note (noteLine s.painted .yellow "Warning" s!"{path} not found, showing {id.text}")
  preload host.toDisk s.splitDir id
  host.print (← inSession (nodeText s chain id))

/-- Shows what was asked for. -/
def showPart (host : Host m) (s : Setup) (combined : List TagStat) : Browse m Unit :=
  match s.options.path with
  | some path => showNode host s path
  | none => do host.print (← inSession (overview s combined))

/-- Runs a part of the work; its failure is one of the run. -/
def within {ε α : Type} (wrap : ε → Failure) (x : ExceptT ε (StateT Session m) α) :
    ExceptT Failure (StateT Session m) α :=
  x.adapt wrap

def combinedTagStats : List CombinedTag → ExceptT Failure (StateT Session m) (List TagStat)
  | [] => return []
  | tag :: tags => do
    let (result, s) := (combinedStat tag.pattern tag.name).run (← get)
    set s
    match result with
    | .error e => throw (.combinedTag tag.pattern e)
    | .ok stat => return stat :: (← combinedTagStats tags)

def writePage (host : Host m) (s : Setup) (combined : List TagStat) (path : Path) :
    ExceptT Failure (StateT Session m) Unit := do
  let text ← within .browse (inSession (pageReport combined))
  if ← host.write path text then
    host.note (noteLine s.painted .blue "Info" s!"HTML report written to {path.text}")
  else throw (.page path)

def showSession (host : Host m) (s : Setup) : ExceptT Failure (StateT Session m) Unit := do
  let combined ← combinedTagStats s.config.combinedTags
  within .browse (showPart host s combined)
  match s.options.html with
  | none => return ()
  | some path => writePage host s combined ⟨path⟩

def openReport (host : Host m) (path : Path) : ExceptT Failure m Session := do
  match ← host.read path with
  | none => throw (.report path .unreadable)
  | some text =>
    match Session.open? text with
    | .ok session => return session
    | .error e => throw (.report path e)

def render (host : Host m) (s : Setup) : ExceptT Failure m Unit := do
  let session ← openReport host s.report
  let (result, _) ← ((showSession host s).run.run session : m (Except Failure Unit × Session))
  result

/-- Ends a run: a failure is noted and gives its code. -/
def finish (host : Host m) (painted : Bool) : Except Failure Unit → m Nat
  | .ok () => return 0
  | .error e => do
    host.note (noteLine painted .boldRed "Error" e.message)
    return failureCode

/-- Shows a report as the options and its configuration say. -/
def runOptions (host : Host m) (painted : Bool) (o : Options) : m Nat := do
  match ← (Config.load host.toDisk (reportDir ⟨o.report⟩) o.config).run with
  | .error e => finish host painted (.error (.config e))
  | .ok found =>
    let config := found.override o.noColor none
    let painted := painted && config.isColored
    finish host painted (← (render host ⟨o, config, painted⟩).run)

/-- Runs the program on a list of arguments and gives its exit code. `painted` says whether text may
have colors. -/
def run (host : Host m) (painted : Bool) (args : List String) : m Nat := do
  match Options.parse args with
  | .ok o => runOptions host painted o
  | .error stop =>
    match stop with
    | .version => host.print versionLine
    | .help => host.note helpText
    | .usage => host.note "Usage: logview [OPTIONS] <REPORT>\n"
    return stop.code

end RunReport.CommandLine
