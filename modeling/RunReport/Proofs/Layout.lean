import RunReport.Format
import RunReport.Route
/-!
# How records are laid out

A slot of a record holds a number, a code, a reference to a text, another record or a list of these.
Which of them it is depends on the slot alone; where the slots of a suite are, the version says.
-/

namespace RunReport

/-- What is written in letters in one version and in numbers in the other. -/
inductive Code where
  | status
  | keywordType
  | critical
  | level
  deriving DecidableEq, Repr

/-- What a value stands for. -/
inductive Part where
  /-- It refers to nothing. -/
  | plain
  | code (c : Code)
  /-- A reference to a text. -/
  | text
  | texts
  | status
  | message
  | messages
  /-- A suite, test or keyword. -/
  | record (b : Branch)
  /-- The children of one kind of a suite. -/
  | children (b : Branch)
  /-- The keywords of a test or keyword, which may be in a split file. -/
  | body
  deriving DecidableEq, Repr

def SuiteSlots.part (slots : SuiteSlots) (i : Nat) : Part :=
  if i = slots.metadata then .texts
  else if i = slots.status then .status
  else if i = slots.suites then .children .suite
  else if i = slots.tests then .children .test
  else if i = slots.keywords then .children .keyword
  else if i = slots.stats then .plain
  else .text

namespace Part

/-- What stands in a slot. -/
def slot (v : Version) : Part → Nat → Part
  | .texts, _ => .text
  | .status, 0 => .code .status
  | .status, 3 => .text
  | .message, 1 => .code .level
  | .message, 2 => .text
  | .message, 3 => .text
  | .messages, _ => .message
  | .record .suite, i => v.suiteSlots.part i
  | .record .test, 2 => .code .critical
  | .record .test, 4 => .texts
  | .record .test, 5 => .status
  | .record .test, 6 => .body
  | .record .test, _ => .text
  | .record .keyword, 0 => .code .keywordType
  | .record .keyword, 5 => .status
  | .record .keyword, 6 => .body
  | .record .keyword, 7 => .messages
  | .record .keyword, _ => .text
  | .children b, _ => .record b
  | .body, _ => .record .keyword
  | _, _ => .plain

/-- Whether values of this part are made of others. -/
def hasSlots : Part → Bool
  | .plain => false
  | .code _ => false
  | .text => false
  | _ => true

/-- The node that slot `i` belongs to, in a value that belongs to the node at `r`. -/
def route (r : Route) (i : Nat) : Part → Route
  | .children b => .child r ⟨b, i⟩
  | .body => .child r ⟨.keyword, i⟩
  | _ => r

/-- What stands at a place further down, slot by slot. -/
def below (v : Version) : Part → List Nat → Part
  | part, [] => part
  | part, i :: path => (part.slot v i).below v path

def routeBelow (v : Version) (r : Route) : Part → List Nat → Route
  | _, [] => r
  | part, i :: path => (part.slot v i).routeBelow v (part.route r i) path

/-- There are no keywords below what is not made of others. -/
theorem hasSlots_of_below {v : Version} {part : Part} {path : List Nat}
    (h : part.below v path = .body) : part.hasSlots = true := by
  induction path generalizing part with
  | nil =>
    cases h
    rfl
  | cons i path ih =>
    have inner := ih h
    cases part <;> first | rfl | cases inner

end Part

namespace Raw

/-- The value at a place. -/
def at? : List Nat → Raw → Option Raw
  | [], u => some u
  | i :: path, .list items => items[i]?.bind (at? path)
  | _ :: _, _ => none

/-- Puts another value at a place. -/
def replaceAt (new : Raw) : List Nat → Raw → Raw
  | [], _ => new
  | i :: path, .list items => .list (items.modify i (replaceAt new path))
  | _ :: _, u => u

end Raw

end RunReport
