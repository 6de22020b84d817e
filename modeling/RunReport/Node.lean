import RunReport.LazyList
import RunReport.Record
import RunReport.Route
/-!
# Nodes

A node is a record in its place in the tree. Its children are lists of raw records of which some
have been turned into nodes. A keyword list in a split file is missing until the file is loaded.
-/

namespace RunReport

/-- Which string table the references of a record mean. -/
inductive TableRef where
  | main
  | split (file : String)
  deriving DecidableEq, Repr

/-- Records, and the ids of the nodes made from them. -/
structure ChildList where
  items : List Raw
  table : TableRef
  made : LazyList NodeId

def ChildList.ofItems (items : List Raw) (table : TableRef) : ChildList :=
  ⟨items, table, .ofLength items.length⟩

/-- The keywords of a test or keyword. -/
structure Keywords where
  splitFile : Option String
  list : Option ChildList

def Keywords.ofSource (source : KeywordSource) (table : TableRef) : Keywords :=
  match source with
  | .inline items => ⟨none, some (.ofItems items table)⟩
  | .split file => ⟨some file, none⟩

def Keywords.install (k : Keywords) (items : List Raw) (table : TableRef) : Keywords :=
  { k with list := some (k.list.getD (.ofItems items table)) }

def Keywords.isLoaded (k : Keywords) : Bool :=
  k.list.isSome

structure Suite where
  record : SuiteRecord
  fullName : String
  /-- Whether a suite above it has a failed teardown. -/
  aboveFailed : Bool
  table : TableRef
  suites : ChildList
  tests : ChildList
  keywords : ChildList

structure Test where
  record : TestRecord
  fullName : String
  aboveFailed : Bool
  table : TableRef
  keywords : Keywords

structure Keyword where
  record : KeywordRecord
  /-- Full name of the suite or test it belongs to, then the places of the keywords down to it. -/
  path : String
  table : TableRef
  keywords : Keywords
  messages : ChildList

structure Message where
  record : MessageRecord
  /-- The keyword that logged it; an execution error has none. -/
  owner : Option Route

inductive Node where
  | suite (s : Suite)
  | test (t : Test)
  | keyword (k : Keyword)
  | message (m : Message)

/-- The texts of a node that are read late. -/
inductive TextPart where
  | doc
  /-- The message as it is stored. -/
  | own
  /-- The message as it is shown. -/
  | message
  deriving DecidableEq

/-- A failed teardown above fails what is below. -/
def effectiveStatus (coded : Status) (aboveFailed : Bool) : Status :=
  if aboveFailed then .fail else coded

def aboveFailedText : String := "Teardown of the parent suite failed."

def alsoAboveFailedText : String := "Also teardown of the parent suite failed."

/-- The message of a test or suite, with a note on a failed teardown above. -/
def effectiveMessage (own : String) (aboveFailed : Bool) : String :=
  if !aboveFailed then own
  else if own.isEmpty then aboveFailedText
  else own ++ "\n\n" ++ alsoAboveFailedText

def Suite.status (s : Suite) : Status :=
  effectiveStatus s.record.status s.aboveFailed

def Test.status (t : Test) : Status :=
  effectiveStatus t.record.status t.aboveFailed

/-- The full name of the suite, spaced, with the dot that ends it. -/
def Test.parentName (t : Test) : String :=
  Text.replace "." " . "
    (String.ofList (t.fullName.toList.take (t.fullName.length - t.record.name.length)))

namespace Node

def kind : Node → NodeKind
  | .suite _ => .suite
  | .test _ => .test
  | .keyword _ => .keyword
  | .message _ => .message

/-- The text stands for the name of a message. -/
def name : Node → String
  | .suite s => s.record.name
  | .test t => t.record.name
  | .keyword k => k.record.name
  | .message m => m.record.text

def status? : Node → Option Status
  | .suite s => some s.status
  | .test t => some t.status
  | .keyword k => some k.record.status
  | .message _ => none

def times? : Node → Option Times
  | .suite s => some s.record.times
  | .test t => some t.record.times
  | .keyword k => some k.record.times
  | .message _ => none

/-- What the path of a keyword below starts with. -/
def pathBase : Node → String
  | .suite s => s.fullName
  | .test t => t.fullName
  | .keyword k => k.path
  | .message _ => ""

/-- The list of children of one kind, if the node has such a list and it is loaded. -/
def list? : Node → NodeKind → Option ChildList
  | .suite s, .suite => some s.suites
  | .suite s, .test => some s.tests
  | .suite s, .keyword => some s.keywords
  | .test t, .keyword => t.keywords.list
  | .keyword k, .keyword => k.keywords.list
  | .keyword k, .message => some k.messages
  | _, _ => none

/-- Where its documentation stands. -/
def doc? : Node → Option (TableRef × Option Raw)
  | .suite s => some (s.table, s.record.doc)
  | .test t => some (t.table, t.record.doc)
  | .keyword k => some (k.table, k.record.doc)
  | .message _ => none

/-- Where its message stands, and whether a teardown above it failed. -/
def message? : Node → Option (TableRef × Option Raw × Bool)
  | .suite s => some (s.table, s.record.message, s.aboveFailed)
  | .test t => some (t.table, t.record.message, t.aboveFailed)
  | _ => none

/-- Changes the list of children of one kind. -/
def updateList (f : ChildList → ChildList) : Node → NodeKind → Node
  | .suite s, .suite => .suite { s with suites := f s.suites }
  | .suite s, .test => .suite { s with tests := f s.tests }
  | .suite s, .keyword => .suite { s with keywords := f s.keywords }
  | .test t, .keyword =>
    .test { t with keywords := { t.keywords with list := t.keywords.list.map f } }
  | .keyword k, .keyword =>
    .keyword { k with keywords := { k.keywords with list := k.keywords.list.map f } }
  | .keyword k, .message => .keyword { k with messages := f k.messages }
  | n, _ => n

def keywords? : Node → Option Keywords
  | .test t => some t.keywords
  | .keyword k => some k.keywords
  | _ => none

def isLoaded (n : Node) : Bool :=
  match n.keywords? with
  | some k => k.isLoaded
  | none => true

/-- What there is to see of the keywords of a node: whether they are loaded, and how many there are. -/
structure Sight where
  isLoaded : Bool
  keywords : Option Nat
  deriving DecidableEq, Repr

def sight (n : Node) : Sight :=
  ⟨n.isLoaded, (n.list? .keyword).map (·.made.length)⟩

/-- The file to load before the children can be read. -/
def missingFile? (n : Node) : Option String :=
  match n.keywords? with
  | some k => if k.isLoaded then none else k.splitFile
  | none => none

/-- Puts the content of a split file in place, unless there is a list already. -/
def install (items : List Raw) (table : TableRef) : Node → Node
  | .test t => .test { t with keywords := t.keywords.install items table }
  | .keyword k => .keyword { k with keywords := k.keywords.install items table }
  | n => n

end Node

end RunReport
