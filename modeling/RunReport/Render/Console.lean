import RunReport.Json.Value
import RunReport.Render.Style
import RunReport.Session.Outline
/-!
# Console text

Reports, search results, errors and single nodes as text for a terminal.
-/

namespace RunReport.Render

structure ConsoleOptions where
  colors : Bool
  verbose : Bool
  /-- Messages below this level are left out. -/
  minLevel : Level

/-- What a whole report shows. -/
structure ReportView where
  root : Suite
  generated : Option Instant
  outline : List Outline
  statistics : Statistics
  combined : List TagStat
  errors : Nat

/-- What a single node shows below its path. -/
inductive NodeView where
  | suite (suite : Suite) (doc message : String) (keywords : List KeywordTree)
      (outline : List Outline)
  | test (test : Test) (doc message : String) (keywords : Option (List KeywordTree))
  | keyword (tree : List KeywordTree)
  | message (message : Message)

namespace Console

def bold : String → Span := styled .bold

def dimmed : String → Span := styled .dimmed

def statusSpan (s : Status) : Span :=
  let label := Text.padRight 7 s.text
  match s with
  | .pass => styled .green label
  | .fail => styled .boldRed label
  | .notRun => styled .yellow label

def levelSpan (text : String) (l : Level) : Span :=
  match l with
  | .error => styled .red text
  | .fail => styled .red text
  | .warn => styled .yellow text
  | .info => styled .blue text
  | .debug => dimmed text
  | .trace => dimmed text

def docLine (doc : String) (depth : Nat) : List Span :=
  if doc.isEmpty then [] else line [plain (indent depth), styled .italic doc]

/-- Every line of a message that is not empty, after an arrow. -/
def messageLines (message : String) (depth : Nat) : List Span :=
  ((Text.lines message.toList).filter (!·.isEmpty)).flatMap fun l =>
    line [plain (indent depth), dimmed "→", plain (" " ++ String.ofList l)]

def unloadedLine (file : Option String) (depth : Nat) : List Span :=
  line [plain (indent depth), dimmed ("keywords not loaded (" ++ file.getD "unknown file" ++ ")")]

def testLine (t : TestEntry) (depth : Nat) : List Span :=
  line [plain (indent depth), statusSpan t.test.status, plain (" " ++ t.test.record.name ++ " "),
      dimmed t.test.record.times.elapsedTime]
    ++ (if t.test.status = .fail then messageLines t.message (depth + 1) else [])

mutual

/-- A suite and, indented, what it contains: suites first. -/
def suiteLines (verbose : Bool) (depth : Nat) : Outline → List Span
  | .suite _ suite doc _ below tests =>
    let counts := suite.record.counts
    line [plain (indent depth), statusSpan suite.status, plain " ", bold suite.record.name,
        plain " ", dimmed s!"({counts.passed}/{counts.total} passed)"]
      ++ (if verbose then docLine doc (depth + 1) else [])
      ++ outlineLines verbose (depth + 1) below
      ++ tests.flatMap (testLine · (depth + 1))

def outlineLines (verbose : Bool) (depth : Nat) : List Outline → List Span
  | [] => []
  | o :: os => suiteLines verbose depth o ++ outlineLines verbose depth os

end

def messageLine (o : ConsoleOptions) (depth : Nat) (m : Message) : List Span :=
  if m.record.level.severity < o.minLevel.severity then []
  else
    line [plain (indent depth), dimmed (Times.showTime m.record.time), plain " ",
      levelSpan m.record.level.text m.record.level, plain (" " ++ m.record.text)]

mutual

def keywordLines (o : ConsoleOptions) (depth : Nat) : KeywordTree → List Span
  | .keyword k doc below messages =>
    line [plain (indent depth), statusSpan k.record.status, plain " ", dimmed k.record.type.text,
        plain (" " ++ k.record.name ++ " " ++ k.record.arguments ++ " "),
        dimmed k.record.times.elapsedTime]
      ++ (if o.verbose then docLine doc (depth + 1) else [])
      ++ (match below with
          | some trees => keywordTrees o (depth + 1) trees
          | none => unloadedLine k.keywords.splitFile (depth + 1))
      ++ messages.flatMap (messageLine o (depth + 1))

def keywordTrees (o : ConsoleOptions) (depth : Nat) : List KeywordTree → List Span
  | [] => []
  | t :: ts => keywordLines o depth t ++ keywordTrees o depth ts

end

/-! ## Statistics -/

def barCells : Nat := 20

/-- Cells for a width, to the nearest; a half counts. -/
def cells (width : Nat) : Nat :=
  (width + 25) / 50

def bar (row : StatisticRow) : List Span :=
  let pass := cells row.widths.pass
  let fail := min (cells row.widths.fail) (barCells - pass)
  let skip := min (cells row.widths.skip) (barCells - pass - fail)
  let empty := barCells - pass - fail - skip
  [plain "[", styled .green (Text.times pass "█"), styled .red (Text.times fail "█"),
    styled .yellow (Text.times skip "█"), plain (Text.times empty "░" ++ "]")]

def number (n : Nat) : String :=
  Text.padLeft 5 (toString n)

def rowLine (width : Nat) (row : StatisticRow) : List Span :=
  line ([plain (indent 1 ++ Text.padRight width row.label ++ "  " ++ number row.counts.pass ++ " "
      ++ number row.counts.fail ++ " " ++ number row.counts.skip ++ "  ")]
    ++ bar row
    ++ [plain (" " ++ Text.padLeft 5 (Json.showTenths row.percents.pass) ++ "%")])

def table (title : String) (rows : List StatisticRow) : List Span :=
  let width := rows.foldl (fun w r => max w r.label.length) 0
  line [bold (title ++ ":")] ++ rows.flatMap (rowLine width) ++ line []

/-- Rows with a note come last. -/
def tagRows (tags : List TagStat) : List StatisticRow :=
  ((tags.filter (·.shownInfo.isEmpty)) ++ (tags.filter (!·.shownInfo.isEmpty))).map (·.row)

/-! ## Whole texts -/

def report (o : ConsoleOptions) (v : ReportView) : List Span :=
  let counts := v.root.record.counts
  let source := if v.root.record.source.isEmpty then "N/A" else v.root.record.source
  let tags := v.statistics.tag ++ v.combined
  line []
    ++ line [bold ("Test Report: " ++ v.root.record.name)]
    ++ line [plain (indent 1 ++ "Generated: " ++ Times.showDateTime v.generated
        ++ " | Source: " ++ source)]
    ++ line [plain (indent 1 ++ "Status: "), statusSpan v.root.status,
        plain (s!" | Tests: {counts.total} total, {counts.passed} passed, {counts.failed} failed"
          ++ " | Elapsed: " ++ v.root.record.times.elapsedTime)]
    ++ line []
    ++ line [bold "Suites:"]
    ++ outlineLines o.verbose 1 v.outline
    ++ line []
    ++ table "Total Statistics" (v.statistics.total.map (·.row))
    ++ (if tags.isEmpty then [] else table "Statistics by Tag" (tagRows tags))
    ++ table "Statistics by Suite" (v.statistics.suite.map (·.row))
    ++ (if v.errors = 0 then []
        else line [plain (indent 1), levelSpan "!" .error,
          plain s!" {v.errors} execution error(s) (use --errors to show)"])

def foundTest (t : TestEntry) : List Span :=
  line [plain (indent 1), statusSpan t.test.status, plain (" " ++ t.test.fullName ++ " "),
      dimmed ("[" ++ t.id.text ++ "]")]
    ++ (if t.test.record.tags.isEmpty then []
        else line [plain (indent 2 ++ "tags: " ++ ", ".intercalate t.test.record.tags)])
    ++ (if t.message.isEmpty then [] else line [plain (indent 2 ++ t.message)])

def tests (title : String) (found : List TestEntry) : List Span :=
  line [bold title, plain s!" ({found.length})"] ++ found.flatMap foundTest

def errorLine (m : Message) : List Span :=
  line ([plain (indent 1), dimmed (Times.showDateTime m.record.time), plain " ",
      levelSpan m.record.level.text m.record.level, plain (" " ++ m.record.text)]
    ++ (match m.record.link with
        | some link => [plain " ", dimmed ("-> " ++ link)]
        | none => []))

def errors (found : List Message) : List Span :=
  line [bold "Execution Errors", plain s!" ({found.length})"] ++ found.flatMap errorLine

def nodeBody (o : ConsoleOptions) : NodeView → List Span
  | .suite suite doc message keywords outline =>
    line [statusSpan suite.status, plain (" SUITE " ++ suite.fullName ++ " "),
        dimmed suite.record.times.elapsedTime]
      ++ docLine doc 1
      ++ suite.record.metadata.flatMap
          (fun entry => line [plain (indent 1 ++ entry.1 ++ ": " ++ entry.2)])
      ++ messageLines message 1
      ++ keywordTrees o 1 keywords
      ++ outlineLines o.verbose 1 outline
  | .test test doc message keywords =>
    line [statusSpan test.status, plain (" TEST " ++ test.fullName ++ " "),
        dimmed test.record.times.elapsedTime]
      ++ docLine doc 1
      ++ (if test.record.tags.isEmpty then []
          else line [plain (indent 1 ++ "tags: " ++ ", ".intercalate test.record.tags)])
      ++ (match test.record.timeout with
          | some timeout => line [plain (indent 1 ++ "timeout: " ++ timeout)]
          | none => [])
      ++ line [plain (indent 1 ++ "critical: " ++ (if test.record.critical then "yes" else "no"))]
      ++ messageLines message 1
      ++ (match keywords with
          | some trees => keywordTrees o 1 trees
          | none => unloadedLine test.keywords.splitFile 1)
  | .keyword tree => keywordTrees o 0 tree
  | .message m => messageLine o 0 m

def node (o : ConsoleOptions) (chain : List String) (v : NodeView) : List Span :=
  line [bold "Path:", plain (" " ++ " > ".intercalate chain)] ++ nodeBody o v

end Console

end RunReport.Render
