import RunReport.Text.Cut
/-!
# Writing JSON

Values with their fields in order, written compactly or with two spaces per level. Percentages and
widths are decimals with one place.
-/

namespace RunReport.Json

inductive Value where
  | null
  | bool (b : Bool)
  | int (n : Int)
  /-- A number of tenths. -/
  | tenths (n : Nat)
  | str (s : String)
  | arr (items : List Value)
  | obj (fields : List (String × Value))
  deriving Inhabited

def showTenths (n : Nat) : String :=
  s!"{n / 10}.{n % 10}"

/-- Two lower-case hexadecimal digits. -/
def hexByte (n : Nat) : String :=
  String.ofList [Nat.digitChar (n / 16), Nat.digitChar (n % 16)]

def escapeChar (c : Char) : String :=
  if c = '"' then "\\\""
  else if c = '\\' then "\\\\"
  else if c = '\n' then "\\n"
  else if c = '\r' then "\\r"
  else if c = '\t' then "\\t"
  else if c = '\x08' then "\\b"
  else if c = '\x0c' then "\\f"
  else if c.toNat < 0x20 then "\\u00" ++ hexByte c.toNat
  else String.singleton c

def showString (s : String) : String :=
  "\"" ++ String.join (s.toList.map escapeChar) ++ "\""

mutual

def Value.compact : Value → String
  | .null => "null"
  | .bool b => if b then "true" else "false"
  | .int n => toString n
  | .tenths n => showTenths n
  | .str s => showString s
  | .arr items => "[" ++ ",".intercalate (compactItems items) ++ "]"
  | .obj fields => "\x7b" ++ ",".intercalate (compactFields fields) ++ "\x7d"

def compactItems : List Value → List String
  | [] => []
  | v :: vs => v.compact :: compactItems vs

def compactFields : List (String × Value) → List String
  | [] => []
  | (k, v) :: fs => (showString k ++ ":" ++ v.compact) :: compactFields fs

end

/-- Items on lines of their own, one level deeper than the brackets; none leaves the brackets
empty. -/
def block (opening closing : String) (level : Nat) (items : List String) : String :=
  if items.isEmpty then opening ++ closing
  else
    let inner := "\n" ++ Text.times (level + 1) "  "
    opening ++ inner ++ ("," ++ inner).intercalate items ++ "\n" ++ Text.times level "  " ++ closing

mutual

def Value.pretty (level : Nat) : Value → String
  | .null => "null"
  | .bool b => if b then "true" else "false"
  | .int n => toString n
  | .tenths n => showTenths n
  | .str s => showString s
  | .arr items => block "[" "]" level (prettyItems (level + 1) items)
  | .obj fields => block "\x7b" "\x7d" level (prettyFields (level + 1) fields)

def prettyItems (level : Nat) : List Value → List String
  | [] => []
  | v :: vs => v.pretty level :: prettyItems level vs

def prettyFields (level : Nat) : List (String × Value) → List String
  | [] => []
  | (k, v) :: fs => (showString k ++ ": " ++ v.pretty level) :: prettyFields level fs

end

def Value.text (pretty : Bool) (v : Value) : String :=
  if pretty then v.pretty 0 else v.compact

/-- A string or `null`. -/
def Value.ofOption (s : Option String) : Value :=
  match s with
  | some s => .str s
  | none => .null

def Value.strings (ss : List String) : Value :=
  .arr (ss.map .str)

end RunReport.Json
