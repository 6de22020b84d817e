import RunReport.Raw
import RunReport.Statistics.Row
import RunReport.Text.Cut
/-!
# Statistics tables

A report carries three tables: totals, tags and suites. Rows start with a label and the counts of
passed, failed and perhaps skipped tests; what follows depends on the table.
-/

namespace RunReport

inductive TotalKind where
  | critical
  | all
  deriving DecidableEq, Repr

structure TotalStat where
  kind : TotalKind
  row : StatisticRow

structure Link where
  title : String
  url : String
  deriving DecidableEq, Repr

structure TagStat where
  row : StatisticRow
  doc : String
  links : List Link
  /-- The query of a row that combines tags. -/
  combined : Option String
  info : Option String

structure SuiteStat where
  row : StatisticRow
  id : Option String
  name : String

structure Statistics where
  total : List TotalStat
  tag : List TagStat
  suite : List SuiteStat

def TagStat.shownInfo (t : TagStat) : String :=
  match t.info with
  | some info => if info.isEmpty then "" else s!"({info})"
  | none => ""

def SuiteStat.fullName (s : SuiteStat) : String :=
  s.row.label

/-- Spaces around the dots of a name. -/
def spacedName (name : List Char) : String :=
  Text.replace "." " . " (String.ofList name)

/-- What stands before `tail` in `cs`. -/
def before? (tail cs : List Char) : Option (List Char) :=
  if tail.isSuffixOf cs then some (cs.take (cs.length - tail.length)) else none

/-- The names of the suites above. -/
def SuiteStat.parentName (s : SuiteStat) : String :=
  spacedName ((before? s.name.toList s.row.label.toList).getD [])

namespace Statistics

def parseLink (cs : List Char) : Link :=
  match Text.cutOnce [':'] cs with
  | some (title, url) => ⟨String.ofList title, String.ofList url⟩
  | none => ⟨String.ofList cs, ""⟩

/-- Links are separated by three colons, a title from its address by the first colon. -/
def parseLinks (links : Option String) : List Link :=
  match links with
  | none => []
  | some s => if s.isEmpty then [] else (Text.cut ":::".toList s.toList).map parseLink

def count (items : List Raw) (slot : Nat) : Except Error Nat := do
  match items[slot]? with
  | none => throw (.shape "statistics row" (.missingCount slot))
  | some r =>
    let n ← r.asInt "statistics count"
    if n < 0 then throw (.shape "statistics row" (.negativeCount n)) else return n.toNat

/-- Text that is there and not empty. -/
def text (items : List Raw) (slot : Nat) : Except Error (Option String) := do
  match items[slot]? with
  | none => return none
  | some .null => return none
  | some r =>
    let s ← r.asStr "statistics text"
    return if s.isEmpty then none else some s

/-- In older rows the slot of the skipped count holds something else. -/
def skipCount (items : List Raw) : Except Error Nat :=
  match (items[3]? : Option Raw) with
  | none => .ok 0
  | some .null => .ok 0
  | some (.str _) => .ok 0
  | some _ => count items 3

def baseRow (items : List Raw) : Except Error StatisticRow := do
  match items with
  | [] => throw (.shape "statistics row" .emptyRow)
  | first :: _ =>
    let label ← first.asStr "statistics label"
    let pass ← count items 1
    let fail ← count items 2
    let skip ← skipCount items
    return .ofCounts label ⟨pass, fail, skip⟩

def totalStat (items : List Raw) : Except Error TotalStat := do
  let row ← baseRow items
  return ⟨if row.label == "Critical Tests" then .critical else .all, row⟩

def tagStat (items : List Raw) : Except Error TagStat := do
  let row ← baseRow items
  let doc ← text items 4
  let links ← text items 5
  let combined ← text items 6
  let info ← text items 7
  return { row, doc := doc.getD "", links := parseLinks links, combined, info }

/-- The part of a name after its last dot. -/
def lastPart (name : String) : String :=
  match Text.cutLast '.' name.toList with
  | some (_, last) => String.ofList last
  | none => name

def suiteStat (items : List Raw) : Except Error SuiteStat := do
  let row ← baseRow items
  let name ← text items 5
  let id ← text items 4
  return { row, id, name := name.getD (lastPart row.label) }

def rowsFrom {α : Type} (parse : List Raw → Except Error α) : List Raw → Except Error (List α)
  | [] => .ok []
  | r :: rs => do
    let a ← parse (← r.asList "statistics row")
    let rest ← rowsFrom parse rs
    return a :: rest

def rows {α : Type} (parse : List Raw → Except Error α) (table : Raw) : Except Error (List α) := do
  rowsFrom parse (← table.asList "statistics table")

def ofRaw (r : Raw) : Except Error Statistics := do
  let tables ← r.element "statistics"
  let total ← rows totalStat (← tables.get 0)
  let tag ← rows tagStat (← tables.get 1)
  let suite ← rows suiteStat (← tables.get 2)
  return { total, tag, suite }

end Statistics

end RunReport
