import RunReport.Json.Reader
/-!
# Reading records

A record is an object whose fields come in any order, each at most once, among others that are
skipped; or a list of the field values in declaration order, of which the last may be left out when
they have defaults.
-/

namespace RunReport.Json

/-- Whether another member of an object follows, up to and including the quote of its key. -/
def moreMembers (isFirst : Bool) : Reader Bool := do
  match ← next with
  | some '\x7d' => drop1; return false
  | some c =>
    if isFirst then
      if c = '"' then drop1; return true else malformed
    else if c = ',' then
      drop1
      match ← next with
      | some '"' => drop1; return true
      | _ => malformed
    else malformed
  | none => malformed

def colon : Reader Unit := do
  match ← next with
  | some ':' => drop1
  | _ => malformed

inductive SkipState where
  | plain
  | escaped
  | unit (left : Nat)

/-- Passes over a string up to its closing quote. -/
def skipString : SkipState → Reader Unit
  | _, [] => .error .malformed
  | .plain, c :: cs =>
    if c = '"' then .ok ((), cs)
    else if c = '\\' then skipString .escaped cs
    else if c.toNat < 0x20 then .error .malformed
    else skipString .plain cs
  | .escaped, c :: cs =>
    if c = 'u' then skipString (.unit 4) cs
    else if (shortEscape? c).isSome then skipString .plain cs
    else .error .malformed
  | .unit left, c :: cs =>
    if (hexDigit? c).isNone then .error .malformed
    else if 1 < left then skipString (.unit (left - 1)) cs
    else skipString .plain cs

def membersFrom (value : Reader Unit) : (fuel : Nat) → (isFirst : Bool) → Reader Unit
  | 0, _ => malformed
  | fuel + 1, isFirst => do
    if ← moreMembers isFirst then
      skipString .plain
      colon
      value
      membersFrom value fuel false

/-- Passes over one value. Every level takes a character, so the length of the text is enough
`fuel`. -/
def skipFrom : (fuel : Nat) → Reader Unit
  | 0 => malformed
  | fuel + 1 => do
    match ← next with
    | some 'n' => literal "null".toList
    | some 't' => literal "true".toList
    | some 'f' => literal "false".toList
    | some '"' => drop1; skipString .plain
    | some '[' => drop1; discard (itemsFrom (skipFrom fuel) (fuel + 1) true)
    | some '\x7b' => drop1; membersFrom (skipFrom fuel) (fuel + 1) true
    | some c => if c = '-' || c.isDigit then discard numberText else malformed
    | none => malformed

def skip : Reader Unit := do
  skipFrom ((← get).length + 1)

/-- A field of a record that is gathered into a `σ`. -/
structure Field (σ : Type) where
  name : String
  required : Bool
  /-- Reads the value at a level with so many levels left. -/
  read : Nat → σ → Reader σ

/-- The first required field that was not seen. -/
def missing? {σ : Type} (fields : List (Field σ)) (seen : List String) : Option String :=
  (fields.find? fun f => f.required && !seen.contains f.name).map (·.name)

def objectFrom {σ : Type} (fields : List (Field σ)) (depth : Nat) :
    (fuel : Nat) → (isFirst : Bool) → (seen : List String) → σ → Reader σ
  | 0, _, _, _ => malformed
  | fuel + 1, isFirst, seen, acc => do
    if ← moreMembers isFirst then
      let key ← stringRest
      match fields.find? (·.name == key) with
      | some f =>
        if seen.contains key then faulty (.duplicateField key)
        else
          colon
          let acc ← f.read depth acc
          objectFrom fields depth fuel false (key :: seen) acc
      | none =>
        colon
        skip
        objectFrom fields depth fuel false seen acc
    else
      match missing? fields seen with
      | some name => faulty (.missingField name)
      | none => return acc

def arrayFrom {σ : Type} (wanted : String) (depth : Nat) :
    List (Field σ) → (index : Nat) → (isFirst : Bool) → σ → Reader σ
  | [], _, _, acc => do
    match ← next with
    | some ']' => drop1; return acc
    | _ => malformed
  | f :: fs, index, isFirst, acc => do
    if ← moreItems isFirst then
      let acc ← f.read depth acc
      arrayFrom wanted depth fs (index + 1) false acc
    else if f.required then faulty (.invalidLength index wanted)
    else arrayFrom wanted depth fs (index + 1) isFirst acc

/-- A record called `label`, started from the defaults. -/
def record {σ : Type} (label : String) (fields : List (Field σ)) (start : σ) (depth : Nat) :
    Reader σ := do
  match ← next with
  | some '\x7b' =>
    deeper depth fun d => do
      drop1
      objectFrom fields d ((← get).length + 1) true [] start
  | some '[' =>
    deeper depth fun d => do
      drop1
      arrayFrom s!"{label} with {fields.length} elements" d fields 0 true start
  | _ => unexpected label

/-- One of the names, alone or as the only key of an object with the value `null`. -/
def variant {α : Type} (names : List (String × α)) (depth : Nat) : Reader α := do
  let find (name : String) : Reader α :=
    match names.lookup name with
    | some a => pure a
    | none => faulty (.unknownVariant name (names.map (·.1)))
  match ← next with
  | some '"' => drop1; find (← stringRest)
  | some '\x7b' =>
    deeper depth fun _ => do
      drop1
      let a ← match ← next with
        | some '"' => drop1; find (← stringRest)
        | _ => malformed
      colon
      match ← next with
      | some 'n' => literal "null".toList
      | _ => unexpected "unit"
      match ← next with
      | some '\x7d' => drop1; return a
      | _ => malformed
  | _ => malformed

end RunReport.Json
