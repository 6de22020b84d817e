import RunReport.Json.Value
import RunReport.Render.Data
/-!
# HTML pages

A self-contained page with the statistics tables and the outline of suites. Text from the report is
escaped, and the statistics are also embedded as JSON.
-/

namespace RunReport.Render.Html

def escapeChar (c : Char) : String :=
  match c with
  | '&' => "&amp;"
  | '<' => "&lt;"
  | '>' => "&gt;"
  | '"' => "&quot;"
  | '\'' => "&#39;"
  | _ => String.singleton c

def escape (s : String) : String :=
  String.join (s.toList.map escapeChar)

/-- Keeps an end tag inside the data from ending the script. -/
def escapeScript (s : String) : String :=
  Text.replace "</script>" "<\\/script>" s

def statusClass : Status → String
  | .pass => "pass"
  | .fail => "fail"
  | .notRun => "skip"

def percent (tenths : Nat) : String :=
  Json.showTenths tenths ++ "%"

def bar (name : String) (width : Nat) : String :=
  "<b class=\"" ++ name ++ "\" style=\"width:" ++ percent width ++ "\"></b>"

def tableRow (row : StatisticRow) (info : String) : String :=
  "<tr><td>" ++ escape row.label ++ " <span class=\"info\">" ++ escape info ++ "</span></td><td>"
    ++ toString row.total ++ "</td><td>" ++ toString row.counts.pass ++ "</td><td>"
    ++ toString row.counts.fail ++ "</td><td>" ++ toString row.counts.skip ++ "</td>"
    ++ "<td><div class=\"graph\" title=\"" ++ percent row.percents.pass ++ " / "
    ++ percent row.percents.fail ++ " / " ++ percent row.percents.skip ++ "\">"
    ++ bar "pass" row.widths.pass ++ bar "fail" row.widths.fail ++ bar "skip" row.widths.skip
    ++ "</div></td></tr>\n"

def tableHead : String :=
  "<table><thead><tr><th>Name</th><th>Total</th><th>Pass</th><th>Fail</th><th>Skip</th>"
    ++ "<th>Graph</th></tr></thead><tbody>\n"

/-- A table of rows with the note of each. -/
def table (title : String) (rows : List (StatisticRow × String)) : String :=
  "<section><h2>" ++ escape title ++ "</h2>\n"
    ++ (if rows.isEmpty then "<p class=\"empty\">No statistics</p></section>\n"
        else tableHead ++ String.join (rows.map fun r => tableRow r.1 r.2)
          ++ "</tbody></table></section>\n")

def badge (s : Status) : String :=
  "<span class=\"badge " ++ statusClass s ++ "\">" ++ s.text ++ "</span> "

def elapsed (t : Times) : String :=
  " <span class=\"elapsed\">" ++ t.elapsedTime ++ "</span>"

def testItem (t : TestEntry) : String :=
  "<li id=\"" ++ escape t.id.text ++ "\" class=\"test\">" ++ badge t.test.status
    ++ escape t.test.record.name ++ elapsed t.test.record.times ++ "</li>\n"

mutual

def suiteItem : Outline → String
  | .suite id s _ _ below tests =>
    "<li id=\"" ++ escape id.text ++ "\">" ++ badge s.status ++ escape s.record.name
      ++ elapsed s.record.times
      ++ (if below.isEmpty && tests.isEmpty then ""
          else "\n<ul>\n" ++ suiteItems below ++ String.join (tests.map testItem) ++ "</ul>\n")
      ++ "</li>\n"

def suiteItems : List Outline → String
  | [] => ""
  | o :: os => suiteItem o ++ suiteItems os

end

def headLines : List String :=
  [ "<!DOCTYPE html>",
    "<html lang=\"en\">",
    "<head>",
    "<meta charset=\"UTF-8\">",
    "<meta name=\"viewport\" content=\"width=device-width, initial-scale=1\">",
    "<title>Logview Test Report</title>",
    "<style>",
    ":root\x7b--bg:#0d0d11;--surface:#16161b;--border:#2a2a32;--text:#e4e4e7;--muted:#71717a;--green:#22c55e;--yellow:#eab308;--red:#ef4444\x7d",
    "*\x7bbox-sizing:border-box;margin:0;padding:0\x7d",
    "body\x7bfont-family:-apple-system,BlinkMacSystemFont,'Segoe UI',Roboto,sans-serif;background:var(--bg);color:var(--text);line-height:1.5\x7d",
    "header\x7bpadding:1.25rem 1.5rem;border-bottom:1px solid var(--border);display:flex;gap:1.5rem;align-items:baseline\x7d",
    "header h1\x7bfont-size:1.125rem\x7d",
    ".meta,.info,.elapsed,.empty\x7bcolor:var(--muted);font-size:.8125rem\x7d",
    "main\x7bpadding:1rem 1.5rem;max-width:1100px\x7d",
    "section\x7bmargin-bottom:1.5rem\x7d",
    "h2\x7bfont-size:.9375rem;margin-bottom:.5rem\x7d",
    "table\x7bwidth:100%;border-collapse:collapse;background:var(--surface);font-size:.8125rem\x7d",
    "th,td\x7bpadding:.35rem .6rem;border-bottom:1px solid var(--border);text-align:left\x7d",
    ".graph\x7bdisplay:flex;width:200px;height:10px;background:var(--border)\x7d",
    ".graph b\x7bdisplay:block;height:100%\x7d",
    ".graph .pass,.badge.pass\x7bbackground:var(--green)\x7d",
    ".graph .fail,.badge.fail\x7bbackground:var(--red)\x7d",
    ".graph .skip,.badge.skip\x7bbackground:var(--yellow)\x7d",
    ".badge\x7bdisplay:inline-block;min-width:4.5em;text-align:center;border-radius:4px;font-size:.6875rem;font-weight:700;color:#000\x7d",
    ".outline,.outline ul\x7blist-style:none;padding-left:1.25rem\x7d",
    ".outline li\x7bmargin:.15rem 0\x7d",
    "</style>",
    "</head>",
    "<body>" ]

def head : String :=
  String.join (headLines.map (· ++ "\n"))

/-- What a page shows. -/
structure Page where
  name : String
  generated : Option Instant
  statistics : Statistics
  combined : List TagStat
  outline : List Outline

/-- The text of the statistics script element. -/
def scriptText (s : Statistics) : String :=
  escapeScript (Data.statistics s).compact

/-- Everything up to the statistics script element. -/
def markup (p : Page) : String :=
  head
    ++ "<header><h1>" ++ escape p.name ++ "</h1><span class=\"meta\">Generated "
    ++ escape (Times.showDateTime p.generated) ++ "</span></header>\n"
    ++ "<main>\n"
    ++ table "Total Statistics" (p.statistics.total.map fun s => (s.row, ""))
    ++ table "Statistics by Tag" ((p.statistics.tag ++ p.combined).map fun s => (s.row, s.shownInfo))
    ++ table "Statistics by Suite" (p.statistics.suite.map fun s => (s.row, ""))
    ++ "<section><h2>Suites</h2>\n<ul class=\"outline\">\n"
    ++ suiteItems p.outline
    ++ "</ul></section>\n</main>\n"

def page (p : Page) : String :=
  markup p
    ++ "<script type=\"application/json\" id=\"statistics\">" ++ scriptText p.statistics
    ++ "</script>\n</body>\n</html>"

end RunReport.Render.Html
