import RunReport.Json.Value
import RunReport.Session.Outline
/-!
# JSON data

Reports, search results, errors and single nodes as JSON values, fields in a fixed order.
-/

namespace RunReport.Render.Data

open Json (Value)

def instant (t : Option Instant) : Value :=
  match t with
  | some t => .str t.rfc3339
  | none => .null

def times (t : Times) : Value :=
  .obj [("start", instant t.start), ("end", instant t.stop), ("elapsedMillis", .int t.elapsed)]

def rowFields (r : StatisticRow) : List (String × Value) :=
  [("label", .str r.label), ("pass", .int r.counts.pass), ("fail", .int r.counts.fail),
    ("skip", .int r.counts.skip), ("total", .int r.total),
    ("passPercent", .tenths r.percents.pass), ("failPercent", .tenths r.percents.fail),
    ("skipPercent", .tenths r.percents.skip), ("passWidth", .tenths r.widths.pass),
    ("failWidth", .tenths r.widths.fail), ("skipWidth", .tenths r.widths.skip)]

def totalKind : TotalKind → String
  | .critical => "critical"
  | .all => "all"

def totalStat (t : TotalStat) : Value :=
  .obj (("kind", .str (totalKind t.kind)) :: rowFields t.row)

def link (l : Link) : Value :=
  .obj [("title", .str l.title), ("url", .str l.url)]

def tagFields (t : TagStat) : List (String × Value) :=
  rowFields t.row ++ [("doc", .str t.doc), ("links", .arr (t.links.map link)),
    ("combined", .ofOption t.combined), ("info", .ofOption t.info)]

def tagStat (t : TagStat) : Value :=
  .obj (tagFields t)

def suiteStatFields (s : SuiteStat) : List (String × Value) :=
  rowFields s.row ++ [("id", .ofOption s.id), ("name", .str s.name)]

def suiteStat (s : SuiteStat) : Value :=
  .obj (suiteStatFields s)

def statistics (s : Statistics) : Value :=
  .obj [("total", .arr (s.total.map totalStat)), ("tag", .arr (s.tag.map tagStat)),
    ("suite", .arr (s.suite.map suiteStat))]

def suiteCounts (c : SuiteCounts) : Value :=
  .obj [("total", .int c.total), ("passed", .int c.passed), ("failed", .int c.failed),
    ("critical", .int c.critical), ("criticalPassed", .int c.criticalPassed),
    ("criticalFailed", .int c.criticalFailed)]

def test (t : TestEntry) : Value :=
  .obj [("id", .str t.id.text), ("name", .str t.test.record.name),
    ("fullName", .str t.test.fullName), ("critical", .bool t.test.record.critical),
    ("tags", .strings t.test.record.tags), ("status", .str t.test.status.name),
    ("message", .str t.message), ("times", times t.test.record.times)]

mutual

def suite : Outline → Value
  | .suite id s _ message below tests =>
    .obj [("id", .str id.text), ("name", .str s.record.name), ("fullName", .str s.fullName),
      ("source", .str s.record.source), ("status", .str s.status.name), ("message", .str message),
      ("times", times s.record.times), ("statistics", suiteCounts s.record.counts),
      ("suites", .arr (suites below)), ("tests", .arr (tests.map test))]

def suites : List Outline → List Value
  | [] => []
  | o :: os => suite o :: suites os

end

def message (id : NodeId) (m : Message) : Value :=
  .obj [("id", .str id.text), ("level", .str m.record.level.text), ("time", instant m.record.time),
    ("text", .str m.record.text), ("link", .ofOption m.record.link)]

mutual

/-- Status and times are left out where there are none, children where they are not loaded. -/
def summary : Summary → Value
  | .node id n children =>
    .obj ([("id", .str id.text), ("kind", .str n.kind.text), ("name", .str n.name)]
      ++ (match n.status? with
          | some s => [("status", .str s.name)]
          | none => [])
      ++ (match n.times? with
          | some t => [("times", times t)]
          | none => [])
      ++ (match children with
          | some cs => [("children", .arr (summaries cs))]
          | none => []))

def summaries : List Summary → List Value
  | [] => []
  | s :: ss => summary s :: summaries ss

end

/-- What a whole report shows. -/
structure ReportContent where
  version : Version
  generated : Option Instant
  outline : List Outline
  statistics : Statistics
  combined : List TagStat
  errors : List (NodeId × Message)

def report (d : ReportContent) : Value :=
  .obj [("version", .int d.version.number), ("generated", instant d.generated),
    ("suite", ((suites d.outline).head?).getD .null), ("statistics", statistics d.statistics),
    ("combined", .arr (d.combined.map tagStat)),
    ("errors", .arr (d.errors.map fun e => message e.1 e.2))]

def node (chain : List String) (s : List Summary) : Value :=
  .obj [("chain", .strings chain), ("node", ((summaries s).head?).getD .null)]

end RunReport.Render.Data
