import RunReport.Render.Console
import RunReport.Render.Html
/-!
# Rendering a session

Gathers what a rendering shows and writes it.
-/

namespace RunReport.Session

open Render

def generated (s : Session) : Option Instant :=
  Times.timestamp s.coding.baseMillis s.generatedMillis

/-- What a report shows as text. -/
def reportView (withDoc : Bool) (combined : List TagStat) : Run (Option ReportView) := do
  let _ ← rootSuite
  let outline ← textOutline withDoc (← get).suiteDepth .root
  let statistics ← statistics
  let errors ← errorList
  let s ← get
  return (s.suite? .root).map fun root =>
    { root, generated := s.generated, outline, statistics, combined, errors := errors.length }

def consoleReport (o : ConsoleOptions) (combined : List TagStat) : Run String := do
  match ← reportView o.verbose combined with
  | none => return ""
  | some view => return paint o.colors (Console.report o view)

def testEntries (ids : List NodeId) : Run (List TestEntry) :=
  flatRun (testEntry fun _ => true) ids

def consoleTests (o : ConsoleOptions) (title : String) (ids : List NodeId) : Run String := do
  return paint o.colors (Console.tests title (← testEntries ids))

def consoleErrors (o : ConsoleOptions) (ids : List NodeId) : Run String := do
  return paint o.colors (Console.errors ((← get).messages ids))

/-- Keywords with all that is loaded below them. -/
def keywordTrees (verbose : Bool) (ids : List NodeId) : Run (List KeywordTree) := do
  flatRun (keywordTree verbose (← get).depthBound) ids

def nodeView (o : ConsoleOptions) (id : NodeId) (n : Node) : Run (Option NodeView) := do
  match id, n with
  | .branch r, .suite suite =>
    let doc ← doc (.branch r)
    let message ← statusMessage (.branch r)
    let keywords ← keywordTrees o.verbose (← childList r .keyword)
    let outline ← textOutline o.verbose (← get).suiteDepth r
    return some (.suite suite doc message keywords outline)
  | .branch r, .test test =>
    let doc ← doc (.branch r)
    let message ← statusMessage (.branch r)
    match ← typedList id .keyword with
    | none => return some (.test test doc message none)
    | some ids => return some (.test test doc message (some (← keywordTrees o.verbose ids)))
  | .branch _, .keyword _ => return some (.keyword (← keywordTrees o.verbose [id]))
  | _, .message m => return some (.message m)
  | _, _ => return none

def consoleNode (o : ConsoleOptions) (chain : List String) (id : NodeId) : Run String := do
  match (← get).node? id with
  | none => return ""
  | some n =>
    match ← nodeView o id n with
    | none => return ""
    | some v => return paint o.colors (Console.node o chain v)

def errorEntries (s : Session) (ids : List NodeId) : List (NodeId × Message) :=
  ids.filterMap fun id =>
    match s.node? id with
    | some (.message m) => some (id, m)
    | _ => none

def dataReport (pretty : Bool) (combined : List TagStat) : Run String := do
  let errorIds ← errorList
  let _ ← rootSuite
  let outline ← dataOutline (← get).suiteDepth .root
  let statistics ← statistics
  let s ← get
  return (Data.report
    { version := s.coding.version, generated := s.generated, outline, statistics, combined
      errors := s.errorEntries errorIds }).text pretty

def dataTests (pretty : Bool) (ids : List NodeId) : Run String := do
  return (Json.Value.arr ((← testEntries ids).map Data.test)).text pretty

def dataErrors (pretty : Bool) (ids : List NodeId) : Run String := do
  let entries := (← get).errorEntries ids
  return (Json.Value.arr (entries.map fun e => Data.message e.1 e.2)).text pretty

def dataNode (pretty : Bool) (chain : List String) (id : NodeId) : Run String := do
  return (Data.node chain (← summaryFrom (← get).depthBound id)).text pretty

def pageReport (combined : List TagStat) : Run String := do
  let _ ← rootSuite
  let statistics ← statistics
  let outline ← pageOutline (← get).suiteDepth .root
  let s ← get
  return Html.page
    { name := ((s.suite? .root).map (·.record.name)).getD "", generated := s.generated, statistics
      combined, outline }

end RunReport.Session
