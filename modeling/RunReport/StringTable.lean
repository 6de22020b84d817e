import RunReport.Codec.Base64
import RunReport.Codec.Zlib
import RunReport.Raw
import RunReport.Text.Space
/-!
# String tables

Records refer to text by its place in a table. An entry that starts with `*` is literal text; any
other entry is compressed and written in base64. What an entry stands for is kept once it has been
found, so a compressed entry is inflated once at most; a failure is not kept.
-/

namespace RunReport

/-- What a string reference stands for: a slot that is not there and a `null` are kept apart from
text, the empty text included. -/
inductive SlotText where
  | undefined
  | null
  | value (s : String)
  deriving DecidableEq, Repr

namespace SlotText

def display : SlotText → String
  | .undefined => "undefined"
  | .null => "null"
  | .value s => s

def isUndefined : SlotText → Bool
  | .undefined => true
  | _ => false

def value? : SlotText → Option String
  | .value s => some s
  | _ => none

/-- Text for display. -/
def orEmpty (t : SlotText) : String :=
  t.value?.getD ""

/-- Text that is there and not empty. -/
def nonEmpty? (t : SlotText) : Option String :=
  t.value?.filter (!·.isEmpty)

end SlotText

structure StringTable where
  entries : List String
  decoded : List (Nat × String)
  /-- How many entries have been inflated. -/
  decompressions : Nat

/-- A computation that looks up strings; what it looked up stays looked up when it fails. -/
abbrev Lookup (α : Type) := ExceptT Error (StateM StringTable) α

namespace StringTable

def ofEntries (entries : List String) : StringTable :=
  ⟨entries, [], 0⟩

def size (t : StringTable) : Nat :=
  t.entries.length

/-- The bytes of a compressed entry. -/
def bytes (id : Nat) (entry : String) : Except Error ByteArray :=
  match Codec.Base64.decode (Text.trim entry.toList) with
  | none => .error (.base64 id)
  | some compressed =>
    match Codec.uncompress compressed with
    | none => .error (.inflate id)
    | some out => .ok out

def extract (id : Nat) (entry : String) : Lookup String := do
  let out ← bytes id entry
  modify fun t => { t with decompressions := t.decompressions + 1 }
  match String.fromUTF8? out with
  | some s => return s
  | none => throw (.utf8 id)

/-- The text of an entry that has not been looked up before. -/
def decode (id : Nat) (entry : String) : Lookup String :=
  match entry.toList with
  | [] => return ""
  | '*' :: literal => return String.ofList literal
  | _ => extract id entry

/-- The text of entry `id`; beyond the table all text is empty. -/
def text (id : Nat) : Lookup String := do
  let t ← get
  match t.entries[id]? with
  | none => return ""
  | some entry =>
    match t.decoded.lookup id with
    | some s => return s
    | none =>
      let s ← decode id entry
      modify fun t => { t with decoded := (id, s) :: t.decoded }
      return s

/-- Resolves a slot of a record. -/
def lookup (slot : Option Raw) : Lookup SlotText := do
  match slot with
  | none => return .undefined
  | some .null => return .null
  | some r =>
    let n ← r.asInt "string reference"
    if n < 0 then throw (.shape "string reference" (.negativeId n))
    else return .value (← text n.toNat)

end StringTable

end RunReport
