import RunReport.Format
import RunReport.StringTable
import RunReport.Times
/-!
# Records

What the compact records of suites, tests, keywords and messages say by themselves, before they are
put into the tree. Slots are read in a fixed order, so of two faults the earlier slot in that order
is reported. Documentation and status messages are only referred to.
-/

namespace RunReport

/-- What reading a record of one report depends on. -/
structure Coding where
  version : Version
  baseMillis : Int
  splitLogBase : Option String

/-- Test counts of a suite and everything below it. -/
structure SuiteCounts where
  total : Nat
  passed : Nat
  failed : Nat
  critical : Nat
  criticalPassed : Nat
  criticalFailed : Nat
  deriving DecidableEq, Repr

def SuiteCounts.of (total passed critical criticalPassed : Nat) : SuiteCounts :=
  ⟨total, passed, total - passed, critical, criticalPassed, critical - criticalPassed⟩

structure SuiteRecord where
  name : String
  source : String
  relativeSource : String
  doc : Option Raw
  metadata : List (String × String)
  status : Status
  message : Option Raw
  times : Times
  counts : SuiteCounts
  suites : List Raw
  tests : List Raw
  keywords : List Raw

/-- Keyword children stand in the record or in a file of their own. -/
inductive KeywordSource where
  | inline (items : List Raw)
  | split (file : String)

structure TestRecord where
  name : String
  timeout : Option String
  critical : Bool
  doc : Option Raw
  tags : List String
  status : Status
  message : Option Raw
  times : Times
  keywords : KeywordSource

structure KeywordRecord where
  type : KeywordType
  name : String
  timeout : Option String
  doc : Option Raw
  arguments : String
  status : Status
  times : Times
  keywords : KeywordSource
  messages : List Raw

structure MessageRecord where
  level : Level
  time : Option Instant
  text : String
  link : Option String

namespace Coding

/-- The file that holds the keywords numbered `index`. -/
def splitFileName (c : Coding) (index : Int) : String :=
  c.splitLogBase.getD "log" ++ s!"-{index}.json"

/-- Status, times and the reference to the message. -/
def statusPart (c : Coding) (el : Element) : Except Error (Status × Times × Option Raw) := do
  let status ← c.version.status (← el.get 0)
  let start ← (← el.get 1).asOptInt "status start"
  let elapsed ← el.int 2
  if Times.inRange c.baseMillis start elapsed then
    return (status, Times.ofOffsets c.baseMillis start elapsed, el.opt 3)
  else throw (.shape "status" (.timesOutOfRange start elapsed))

def stringOf (r : Raw) : Lookup String := do
  return (← StringTable.lookup (some r)).orEmpty

def stringsOf : List Raw → Lookup (List String)
  | [] => return []
  | r :: rs => do
    let s ← stringOf r
    let rest ← stringsOf rs
    return s :: rest

/-- Keys and values by turns. -/
def pairsOf : List String → List (String × String)
  | k :: v :: rest => (k, v) :: pairsOf rest
  | _ => []

def metadataOf (r : Raw) : Lookup (List (String × String)) := do
  let items ← r.asList "suite metadata"
  if items.length % 2 = 0 then
    return pairsOf (← stringsOf items)
  else throw (.shape "suite metadata" (.oddEntries items.length))

def countSlot (el : Element) (slot : Nat) : Except Error Nat := do
  let n ← el.int slot
  if n < 0 then throw (.shape "suite statistics" (.negativeCount n)) else return n.toNat

def countsOf (el : Element) : Except Error SuiteCounts := do
  let total ← countSlot el 0
  let passed ← countSlot el 1
  let critical ← countSlot el 2
  let criticalPassed ← countSlot el 3
  return .of total passed critical criticalPassed

/-- A kind of value that holds no children, as it is shown in an error. -/
def showScalar : Raw → String
  | .bool b => s!"Bool({b})"
  | .str s => "Str(" ++ Text.quoted s ++ ")"
  | r => r.kind

def keywordSource (c : Coding) (slot : Raw) : Except Error KeywordSource := do
  match slot with
  | .list items => return .inline items
  | .null => return .inline []
  | .bool _ => throw (.shape "keyword children" (.noChildren (showScalar slot)))
  | .str _ => throw (.shape "keyword children" (.noChildren (showScalar slot)))
  | _ =>
    let index ← slot.asInt "split index"
    if c.version.hasSplitFiles then return .split (c.splitFileName index)
    else throw (.deferredUnsupported c.version.number index)

def suite (c : Coding) (r : Raw) : Lookup SuiteRecord := do
  let slots := c.version.suiteSlots
  let el ← r.element "suite"
  let name ← stringOf (← el.get slots.name)
  let source ← StringTable.lookup (el.opt slots.source)
  let relativeSource ← match slots.relativeSource with
    | some slot => StringTable.lookup (el.opt slot)
    | none => pure .undefined
  let metadata ← metadataOf (← el.get slots.metadata)
  let (status, times, message) ← c.statusPart (← el.element slots.status)
  let counts ← countsOf (← el.element slots.stats)
  let suites ← (← el.get slots.suites).asList "suite children"
  let tests ← (← el.get slots.tests).asList "suite tests"
  let keywords ← (← el.get slots.keywords).asList "suite keywords"
  return { name, source := source.orEmpty, relativeSource := relativeSource.orEmpty
           doc := el.opt slots.doc, metadata, status, message, times, counts, suites, tests
           keywords }

def test (c : Coding) (r : Raw) : Lookup TestRecord := do
  let el ← r.element "test"
  let name ← stringOf (← el.get 0)
  let timeout ← StringTable.lookup (el.opt 1)
  let critical ← c.version.critical (← el.get 2)
  let tags ← stringsOf (← el.list 4)
  let (status, times, message) ← c.statusPart (← el.element 5)
  let keywords ← c.keywordSource (← el.get 6)
  return { name, timeout := timeout.nonEmpty?, critical, doc := el.opt 3, tags, status, message
           times, keywords }

def keyword (c : Coding) (r : Raw) : Lookup KeywordRecord := do
  let el ← r.element "keyword"
  let type ← c.version.keywordType (← el.get 0)
  let name ← stringOf (← el.get 1)
  let timeout ← StringTable.lookup (el.opt 2)
  let arguments ← StringTable.lookup (el.opt 4)
  let (status, times, _) ← c.statusPart (← el.element 5)
  let keywords ← c.keywordSource (← el.get 6)
  let messages ← match el.opt 7 with
    | some slot => liftM (slot.asList "keyword messages")
    | none => pure []
  return { type, name, timeout := timeout.nonEmpty?, doc := el.opt 3
           arguments := arguments.orEmpty, status, times, keywords, messages }

def message (c : Coding) (r : Raw) : Lookup MessageRecord := do
  let el ← r.element "message"
  let offset ← el.int 0
  let level ← c.version.level (← el.get 1)
  let text ← StringTable.lookup (el.opt 2)
  let link ← StringTable.lookup (el.opt 3)
  return { level, time := Times.timestamp c.baseMillis offset, text := text.orEmpty
           link := link.nonEmpty? }

end Coding

end RunReport
