import RunReport.Json.Number
/-!
# Reading JSON

Readers for the tokens of a JSON text and for the simple values. A reader of one kind of value says
what else it found. Values that nobody asked for are skipped: they must be JSON, but how deep they
nest, how large their numbers are and whether their escapes pair up is not looked at.
-/

namespace RunReport.Json

def isBlank (c : Char) : Bool :=
  c == ' ' || c == '\n' || c == '\t' || c == '\r'

def blanks : Reader Unit :=
  modify (·.dropWhile isBlank)

/-- The next character that is not blank, which stays unread. -/
def next : Reader (Option Char) := do
  blanks
  return (← get).head?

def drop1 : Reader Unit :=
  modify (·.drop 1)

/-- Exactly this text. -/
def literal (text : List Char) : Reader Unit := fun cs =>
  if text.isPrefixOf cs then .ok ((), cs.drop text.length) else .error .malformed

def hexDigit? (c : Char) : Option Nat :=
  if c.isDigit then some (c.toNat - '0'.toNat)
  else if 'a' ≤ c && c ≤ 'f' then some (c.toNat - 'a'.toNat + 10)
  else if 'A' ≤ c && c ≤ 'F' then some (c.toNat - 'A'.toNat + 10)
  else none

/-- The character a one-letter escape stands for. -/
def shortEscape? (c : Char) : Option Char :=
  match c with
  | '"' => some '"'
  | '\\' => some '\\'
  | '/' => some '/'
  | 'b' => some '\x08'
  | 'f' => some '\x0c'
  | 'n' => some '\n'
  | 'r' => some '\r'
  | 't' => some '\t'
  | _ => none

/-- Where the reader of a string stands between two characters. -/
inductive StringState where
  /-- Between characters of the string. -/
  | plain
  /-- After a backslash. -/
  | escaped
  /-- Inside a code unit: its value so far, the digits left, and the high surrogate before it. -/
  | unit (value left : Nat) (high : Option Nat)
  /-- After a high surrogate, which needs a second escape. -/
  | paired (high : Nat)
  | pairedEscape (high : Nat)

/-- What a complete code unit leads to; a surrogate alone is malformed. -/
def unitDone (value : Nat) : Option Nat → Option (Sum Char Nat)
  | none =>
    if 0xdc00 ≤ value && value ≤ 0xdfff then none
    else if 0xd800 ≤ value && value ≤ 0xdbff then some (.inr value)
    else some (.inl (Char.ofNat value))
  | some high =>
    if 0xdc00 ≤ value && value ≤ 0xdfff then
      some (.inl (Char.ofNat (0x10000 + (high - 0xd800) * 0x400 + (value - 0xdc00))))
    else none

def consChar (c : Char) (r : Except ReadError (List Char × List Char)) :
    Except ReadError (List Char × List Char) :=
  r.map fun p => (c :: p.1, p.2)

/-- The characters up to the closing quote. -/
def stringBody : StringState → Reader (List Char)
  | _, [] => .error .malformed
  | .plain, c :: cs =>
    if c = '"' then .ok ([], cs)
    else if c = '\\' then stringBody .escaped cs
    else if c.toNat < 0x20 then .error .malformed
    else consChar c (stringBody .plain cs)
  | .escaped, c :: cs =>
    if c = 'u' then stringBody (.unit 0 4 none) cs
    else
      match shortEscape? c with
      | some d => consChar d (stringBody .plain cs)
      | none => .error .malformed
  | .unit value left high, c :: cs =>
    match hexDigit? c with
    | none => .error .malformed
    | some d =>
      if 1 < left then stringBody (.unit (value * 16 + d) (left - 1) high) cs
      else
        match unitDone (value * 16 + d) high with
        | none => .error .malformed
        | some (.inl ch) => consChar ch (stringBody .plain cs)
        | some (.inr h) => stringBody (.paired h) cs
  | .paired h, c :: cs =>
    if c = '\\' then stringBody (.pairedEscape h) cs else .error .malformed
  | .pairedEscape h, c :: cs =>
    if c = 'u' then stringBody (.unit 0 4 (some h)) cs else .error .malformed

/-- A string, after its opening quote. -/
def stringRest : Reader String := do
  return String.ofList (← stringBody .plain)

/-- Fails with the kind of value that comes next. -/
def unexpected {α : Type} (wanted : String) : Reader α := do
  match ← next with
  | some 'n' => literal "null".toList; faulty (.invalidType .null wanted)
  | some 't' => literal "true".toList; faulty (.invalidType (.boolean true) wanted)
  | some 'f' => literal "false".toList; faulty (.invalidType (.boolean false) wanted)
  | some '"' => drop1; faulty (.invalidType (.string (← stringRest)) wanted)
  | some '[' => faulty (.invalidType .sequence wanted)
  | some '\x7b' => faulty (.invalidType .map wanted)
  | some c =>
    if c = '-' || c.isDigit then
      match ← number with
      | .int n => faulty (.invalidType (.integer n) wanted)
      | .float x => faulty (.invalidType (.floating x) wanted)
    else malformed
  | none => malformed

def string : Reader String := do
  match ← next with
  | some '"' => drop1; stringRest
  | _ => unexpected "a string"

def boolean : Reader Bool := do
  match ← next with
  | some 't' => literal "true".toList; return true
  | some 'f' => literal "false".toList; return false
  | _ => unexpected "a boolean"

/-- An integer between the bounds. -/
def integer (low high : Int) (wanted : String) : Reader Int := do
  match ← next with
  | some c =>
    if c = '-' || c.isDigit then
      match ← number with
      | .int n => if low ≤ n && n ≤ high then return n else faulty (.invalidValue n wanted)
      | .float x => faulty (.invalidType (.floating x) wanted)
    else unexpected wanted
  | none => malformed

def integer64 : Reader Int :=
  integer (-0x8000000000000000) 0x7FFFFFFFFFFFFFFF "i64"

def natural32 : Reader Nat :=
  Int.toNat <$> integer 0 0xFFFFFFFF "u32"

/-- `null` stands for nothing. -/
def optional {α : Type} (item : Reader α) : Reader (Option α) := do
  match ← next with
  | some 'n' => literal "null".toList; return none
  | _ => some <$> item

/-- Whether another item of a list follows; a comma must stand before every item but the first. -/
def moreItems (isFirst : Bool) : Reader Bool := do
  match ← next with
  | some ']' => return false
  | some c =>
    if isFirst then return true
    else if c = ',' then
      drop1
      match ← next with
      | some ']' => malformed
      | some _ => return true
      | none => malformed
    else malformed
  | none => malformed

/-- The items up to the closing bracket. Every item takes a character at least, so the length of
the text is enough `fuel`. -/
def itemsFrom {α : Type} (item : Reader α) : (fuel : Nat) → (isFirst : Bool) → Reader (List α)
  | 0, _ => malformed
  | fuel + 1, isFirst => do
    if ← moreItems isFirst then
      let a ← item
      let rest ← itemsFrom item fuel false
      return a :: rest
    else
      drop1
      return []

/-- The items of a list, after its opening bracket. -/
def items {α : Type} (item : Reader α) : Reader (List α) := do
  itemsFrom item ((← get).length + 1) true

/-- How deep lists and objects may nest. -/
def nestingLimit : Nat := 127

/-- Goes one level deeper when `depth` levels are left. -/
def deeper {α : Type} (depth : Nat) (inner : Nat → Reader α) : Reader α :=
  match depth with
  | 0 => malformed
  | d + 1 => inner d

/-- A list of strings. -/
def strings (depth : Nat) : Reader (List String) := do
  match ← next with
  | some '[' => deeper depth fun _ => do drop1; items string
  | _ => unexpected "a sequence"

/-- Nothing but blanks may follow the value. -/
def whole {α : Type} (value : Reader α) : Reader α := do
  let a ← value
  match ← next with
  | none => return a
  | some _ => malformed

def read {α : Type} (value : Reader α) (text : String) : Except ReadError α :=
  (whole value text.toList).map (·.1)

end RunReport.Json
