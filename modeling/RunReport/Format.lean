import RunReport.Raw
/-!
# Payload versions

Version 1 writes letters for its codes and keeps every keyword inline. Version 2 writes numbers and
may keep keywords in split files. The version decides; the shape of the data never does.
-/

namespace RunReport

inductive Version where
  | lettered
  | indexed
  deriving DecidableEq, Repr

/-- Outcome of a suite, test or keyword. -/
inductive Status where
  | pass
  | fail
  | notRun
  deriving DecidableEq, Repr

/-- The part a keyword plays in the body it belongs to. -/
inductive KeywordType where
  | keyword
  | setup
  | teardown
  /-- A loop. -/
  | forLoop
  /-- One round of a loop. -/
  | iteration
  deriving DecidableEq, Repr

/-- Levels from the least to the most severe. -/
inductive Level where
  | trace
  | debug
  | info
  | warn
  | fail
  | error
  deriving DecidableEq, Repr

def Status.text : Status → String
  | .pass => "PASS"
  | .fail => "FAIL"
  | .notRun => "NOT RUN"

/-- The name of a status in JSON. -/
def Status.name : Status → String
  | .pass => "PASS"
  | .fail => "FAIL"
  | .notRun => "NOT_RUN"

def KeywordType.text : KeywordType → String
  | .keyword => "KEYWORD"
  | .setup => "SETUP"
  | .teardown => "TEARDOWN"
  | .forLoop => "FOR"
  | .iteration => "VAR"

namespace Level

def text : Level → String
  | .trace => "TRACE"
  | .debug => "DEBUG"
  | .info => "INFO"
  | .warn => "WARN"
  | .fail => "FAIL"
  | .error => "ERROR"

def all : List Level :=
  [.trace, .debug, .info, .warn, .fail, .error]

def severity : Level → Nat
  | .trace => 0
  | .debug => 1
  | .info => 2
  | .warn => 3
  | .fail => 4
  | .error => 5

def named : List (String × Level) :=
  all.map fun l => (l.text, l)

end Level

namespace Version

def ofNumber (n : Nat) : Except Error Version :=
  match n with
  | 1 => .ok .lettered
  | 2 => .ok .indexed
  | _ => .error (.unsupportedVersion n)

def number : Version → Nat
  | .lettered => 1
  | .indexed => 2

def hasSplitFiles : Version → Bool
  | .lettered => false
  | .indexed => true

end Version

/-- Slots of a suite record. -/
structure SuiteSlots where
  name : Nat
  source : Nat
  relativeSource : Option Nat
  doc : Nat
  metadata : Nat
  status : Nat
  suites : Nat
  tests : Nat
  keywords : Nat
  stats : Nat

def Version.suiteSlots : Version → SuiteSlots
  | .lettered => ⟨1, 0, none, 2, 3, 4, 5, 6, 7, 8⟩
  | .indexed => ⟨0, 1, some 2, 3, 4, 5, 6, 7, 8, 9⟩

/-- Finds a code in a version's table. -/
def decodeLetters {α : Type} (what : String) (table : List (String × α)) (code : Raw) :
    Except Error α := do
  let letters ← code.asStr what
  match table.lookup letters with
  | some a => .ok a
  | none => .error (.unknownCode what letters)

def decodeIndex {α : Type} (what : String) (table : List (Int × α)) (code : Raw) :
    Except Error α := do
  let index ← code.asInt what
  match table.lookup index with
  | some a => .ok a
  | none => .error (.unknownCode what (toString index))

def statusLetters : List (String × Status) :=
  [("P", .pass), ("F", .fail), ("N", .notRun)]

def statusIndexes : List (Int × Status) :=
  [(0, .fail), (1, .pass), (2, .notRun)]

def keywordTypeLetters : List (String × KeywordType) :=
  [("kw", .keyword), ("setup", .setup), ("teardown", .teardown), ("forloop", .forLoop),
    ("foritem", .iteration)]

def keywordTypeIndexes : List (Int × KeywordType) :=
  [(0, .keyword), (1, .setup), (2, .teardown), (3, .forLoop), (4, .iteration)]

/-- Markup messages count as information. -/
def levelLetters : List (String × Level) :=
  [("T", .trace), ("D", .debug), ("I", .info), ("H", .info), ("W", .warn), ("E", .error),
    ("F", .fail)]

def levelIndexes : List (Int × Level) :=
  [(0, .trace), (1, .debug), (2, .info), (3, .warn), (4, .error), (5, .fail)]

def criticalLetters : List (String × Bool) :=
  [("Y", true), ("N", false)]

namespace Version

def status (v : Version) (code : Raw) : Except Error Status :=
  match v with
  | .lettered => decodeLetters "status" statusLetters code
  | .indexed => decodeIndex "status" statusIndexes code

def keywordType (v : Version) (code : Raw) : Except Error KeywordType :=
  match v with
  | .lettered => decodeLetters "keyword type" keywordTypeLetters code
  | .indexed => decodeIndex "keyword type" keywordTypeIndexes code

def level (v : Version) (code : Raw) : Except Error Level :=
  match v with
  | .lettered => decodeLetters "message level" levelLetters code
  | .indexed => decodeIndex "message level" levelIndexes code

/-- Any number but zero marks a critical test. -/
def critical (v : Version) (code : Raw) : Except Error Bool :=
  match v with
  | .lettered => decodeLetters "criticality" criticalLetters code
  | .indexed => (code.asInt "criticality").map (· != 0)

end Version

end RunReport
