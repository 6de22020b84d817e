/-!
# Regular expressions

The expressions that patterns are turned into: marks for the ends of the text, single characters, and
runs of them. An expression is written as a text, in which `^` and `$` are the ends, `.` is any
character, a sign of the syntax stands for itself after a backslash, other characters stand for
themselves, and a star after a character repeats it. `(?s)` in front lets `.` be a line feed too.
Groups, classes, alternatives and counted repetitions are not read here.
-/

namespace RunReport.Query

/-- What a single character may be. -/
inductive Atom where
  | literal (c : Char)
  | any (lineFeeds : Bool)
  deriving DecidableEq, Repr

def Atom.takes : Atom → Char → Bool
  | .literal d, c => c == d
  | .any lineFeeds, c => lineFeeds || c != '\n'

inductive Item where
  | start
  | finish
  | one (a : Atom)
  | many (a : Atom)
  deriving DecidableEq, Repr

/-- Items that follow each other. -/
abbrev Regex := List Item

/-! ## The syntax -/

/-- The signs before which a backslash may stand. -/
def escapable : List Char :=
  ['\\', '.', '+', '*', '?', '(', ')', '|', '[', ']', '{', '}', '^', '$', '#', '&', '-', '~']

/-- The signs that never stand for themselves alone. -/
def operators : List Char :=
  ['\\', '.', '+', '*', '?', '(', ')', '|', '[', '{', '^', '$']

/-- Reads one character after the other. `done` are the items before, the last of them first, and
`escaped` says whether a backslash has just been read. -/
def readItems (lineFeeds : Bool) : (escaped : Bool) → (done : List Item) → List Char → Option Regex
  | false, done, [] => some done.reverse
  | true, _, [] => none
  | true, done, c :: cs =>
    if escapable.contains c then readItems lineFeeds false (.one (.literal c) :: done) cs else none
  | false, done, c :: cs =>
    if c = '\\' then readItems lineFeeds true done cs
    else if c = '^' then readItems lineFeeds false (.start :: done) cs
    else if c = '$' then readItems lineFeeds false (.finish :: done) cs
    else if c = '.' then readItems lineFeeds false (.one (.any lineFeeds) :: done) cs
    else if c = '*' then
      match done with
      | .one a :: before => readItems lineFeeds false (.many a :: before) cs
      | _ => none
    else if operators.contains c then none
    else readItems lineFeeds false (.one (.literal c) :: done) cs

def parse : List Char → Option Regex
  | '(' :: '?' :: 's' :: ')' :: cs => readItems true false [] cs
  | cs => readItems false false [] cs

/-! ## Searching -/

/-- Keeps the flag of the first place only. -/
def firstFlag : List Bool → List Bool
  | [] => []
  | flag :: later => flag :: later.map fun _ => false

/-- Keeps the flag of the last place only. -/
def lastFlag : List Bool → List Bool
  | [] => []
  | [flag] => [flag]
  | _ :: next :: later => false :: lastFlag (next :: later)

/-- The flag of the next place where the character there is accepted. -/
def stepFlags (accepts : Char → Bool) : List Char → List Bool → List Bool
  | [], _ => [false]
  | c :: cs, flags => (accepts c && flags.tail.headD false) :: stepFlags accepts cs flags.tail

/-- Whether a flag is set at the place or after a run of accepted characters. -/
def runFlags (accepts : Char → Bool) : List Char → List Bool → List Bool
  | [], flags => [flags.headD false]
  | c :: cs, flags =>
    let later := runFlags accepts cs flags.tail
    (flags.headD false || (accepts c && later.headD false)) :: later

/-- The places where an item may begin, by those where what follows it may begin. -/
def Item.flags (text : List Char) : Item → List Bool → List Bool
  | .start => firstFlag
  | .finish => lastFlag
  | .one a => stepFlags a.takes text
  | .many a => runFlags a.takes text

/-- For each place of the text, from its begin to its end, whether the expression takes a piece that
begins there. -/
def Regex.flags (text : List Char) : Regex → List Bool
  | [] => true :: text.map fun _ => true
  | item :: items => item.flags text (Regex.flags text items)

/-- Whether the expression takes some piece of the text. -/
def Regex.search (r : Regex) (text : List Char) : Bool :=
  (r.flags text).any id

/-! ## Engines -/

/-- A library for regular expressions: what it makes of an expression, if it does not refuse it, and
whether it finds that in a text. -/
structure Engine where
  Compiled : Type
  compile : List Char → Option Compiled
  isMatch : Compiled → List Char → Bool

/-- The items that are not a character of their own. -/
def Item.isWide : Item → Bool
  | .one (.any _) | .many (.any _) => true
  | _ => false

/-- An expression is refused when what is made of it is larger than ten mebibytes. How large that is, is
left open; here only the points are counted, a kibibyte each. -/
def mostPoints : Nat := 10 * 1024

/-- The one that the program uses. -/
def Engine.standard : Engine where
  Compiled := Regex
  compile source := (parse source).filter fun r => r.countP Item.isWide ≤ mostPoints
  isMatch := Regex.search

end RunReport.Query
