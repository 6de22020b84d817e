import RunReport.Json.Number
import RunReport.Text.Cut
/-!
# Node ids

A suite, test or keyword is named by its route from the root suite: which kind of child to take and
at which place, step by step. A message has no route and is numbered instead. Written out, a route
is `s1` followed by a segment such as `-t2` for every step, places counted from one.
-/

namespace RunReport

inductive NodeKind where
  | suite
  | test
  | keyword
  | message
  deriving DecidableEq, Repr

def NodeKind.text : NodeKind → String
  | .suite => "suite"
  | .test => "test"
  | .keyword => "keyword"
  | .message => "message"

/-- The kinds that routes lead to. -/
inductive Branch where
  | suite
  | test
  | keyword
  deriving DecidableEq, Repr

namespace Branch

def kind : Branch → NodeKind
  | .suite => .suite
  | .test => .test
  | .keyword => .keyword

def letter : Branch → Char
  | .suite => 's'
  | .test => 't'
  | .keyword => 'k'

def ofLetter? : Char → Option Branch
  | 's' => some .suite
  | 't' => some .test
  | 'k' => some .keyword
  | _ => none

end Branch

/-- One step of a route, with a place counted from zero. -/
structure Segment where
  branch : Branch
  index : Nat
  deriving DecidableEq, Repr

/-- A natural number in decimal digits, perhaps after a plus sign, that fits 64 bits. -/
def ordinal? (cs : List Char) : Option Nat :=
  let ds := match cs with
    | '+' :: rest => rest
    | _ => cs
  match Json.digits ds with
  | ([], _) => none
  | (values, []) =>
    let n := Json.digitsValue values
    if n ≤ Json.maxU64 then some n else none
  | (_, _) => none

namespace Segment

def text (s : Segment) : String :=
  String.singleton s.branch.letter ++ toString (s.index + 1)

def parse? : List Char → Option Segment
  | [] => none
  | c :: cs => do
    let branch ← Branch.ofLetter? c
    match ← ordinal? cs with
    | 0 => none
    | n + 1 => some ⟨branch, n⟩

end Segment

/-- The segments up to the first piece that is none. -/
def takeSegments : List (List Char) → List Segment
  | [] => []
  | p :: ps =>
    match Segment.parse? p with
    | some s => s :: takeSegments ps
    | none => []

/-- The steps below the root that a text names; what comes first is passed over, and a piece that is
no segment ends the path. -/
def parsePath (path : String) : List Segment :=
  takeSegments ((Text.cut ['-'] path.toList).drop 1)

inductive Route where
  | root
  | child (owner : Route) (step : Segment)
  deriving DecidableEq, Repr

def Route.text : Route → String
  | .root => "s1"
  | .child owner step => owner.text ++ "-" ++ step.text

/-- Goes on from a route. -/
def Route.append (r : Route) (steps : List Segment) : Route :=
  steps.foldl Route.child r

def Route.owner? : Route → Option Route
  | .root => none
  | .child owner _ => some owner

inductive NodeId where
  | branch (route : Route)
  | message (number : Nat)
  deriving DecidableEq, Repr

namespace NodeId

def root : NodeId := .branch .root

def messageStart : String := "element-id-"

def text : NodeId → String
  | .branch r => r.text
  | .message n => messageStart ++ toString n

/-- The number in a text such as `element-id-7`. -/
def messageNumber? (cs : List Char) : Option Nat :=
  (Text.after? messageStart.toList cs).map fun rest => Json.digitsValue (Json.digits rest).1

/-- The id with this very text. -/
def ofText? (s : String) : Option NodeId :=
  let candidate :=
    match messageNumber? s.toList with
    | some n => .message n
    | none => .branch (Route.root.append (parsePath s))
  if candidate.text == s then some candidate else none

end NodeId

end RunReport
