import RunReport.Error
import RunReport.Json.Record
/-!
# Compact values

A report holds its records as nested lists of numbers, strings and nulls. They stay in this form
until the node they describe is wanted. A record is a list with fixed slots; its context names it
in errors.
-/

namespace RunReport

inductive Raw where
  | null
  | bool (b : Bool)
  | int (n : Int)
  | float (x : Float)
  | str (s : String)
  | list (items : List Raw)

namespace Raw

def kind : Raw → String
  | .null => "null"
  | .bool _ => "bool"
  | .int _ => "integer"
  | .float _ => "float"
  | .str _ => "string"
  | .list _ => "list"

def isNull : Raw → Bool
  | .null => true
  | _ => false

def wrong {α : Type} (context wanted : String) (r : Raw) : Except Error α :=
  .error (.shape context (.wrongKind wanted r.kind))

/-- The integer a double without fraction stands for, held within 64 bits. -/
def integral? (x : Float) : Option Int :=
  (Binary.ofFloat x).int?.map fun n => max (-0x8000000000000000) (min n 0x7FFFFFFFFFFFFFFF)

def asInt (context : String) (r : Raw) : Except Error Int :=
  match r with
  | .int n => .ok n
  | .float x =>
    match integral? x with
    | some n => .ok n
    | none => wrong context "integer" r
  | _ => wrong context "integer" r

def asOptInt (context : String) (r : Raw) : Except Error (Option Int) :=
  match r with
  | .null => .ok none
  | _ => (r.asInt context).map some

def asStr (context : String) (r : Raw) : Except Error String :=
  match r with
  | .str s => .ok s
  | _ => wrong context "string" r

def asList (context : String) (r : Raw) : Except Error (List Raw) :=
  match r with
  | .list items => .ok items
  | _ => wrong context "list" r

end Raw

/-- A list read as a record. -/
structure Element where
  context : String
  items : List Raw

def Raw.element (context : String) (r : Raw) : Except Error Element :=
  (r.asList context).map fun items => ⟨context, items⟩

namespace Element

def size (e : Element) : Nat :=
  e.items.length

/-- A slot that a shorter record leaves out. -/
def opt (e : Element) (i : Nat) : Option Raw :=
  e.items[i]?

/-- A slot that must be there. -/
def get (e : Element) (i : Nat) : Except Error Raw :=
  match e.items[i]? with
  | some r => .ok r
  | none => .error (.shape e.context (.missingSlot i e.size))

def int (e : Element) (i : Nat) : Except Error Int := do
  (← e.get i).asInt e.context

def list (e : Element) (i : Nat) : Except Error (List Raw) := do
  (← e.get i).asList e.context

def element (e : Element) (i : Nat) : Except Error Element := do
  (← e.get i).element e.context

def last (e : Element) : Except Error Raw :=
  match e.items.getLast? with
  | some r => .ok r
  | none => .error (.shape e.context .emptyRecord)

end Element

namespace Raw

def wanted : String := "a compact report value (null, number, string or array)"

def ofNumber : Json.Number → Raw
  | .int n => if Json.fitsI64 n then .int n else .float (UInt64.ofNat n.toNat).toFloat
  | .float x => .float x

/-- Reads a value, given how to go on after an opening bracket and an opening brace. -/
def valueWith (list map : Json.Reader Raw) : Json.Reader Raw := do
  match ← Json.next with
  | some 'n' => Json.literal "null".toList; return .null
  | some 't' => Json.literal "true".toList; return .bool true
  | some 'f' => Json.literal "false".toList; return .bool false
  | some '"' => Json.drop1; return .str (← Json.stringRest)
  | some '[' => Json.drop1; list
  | some '\x7b' => map
  | some c => if c = '-' || c.isDigit then return ofNumber (← Json.number) else Json.malformed
  | none => Json.malformed

/-- Reads a value with `depth` levels left. Objects have no compact form. -/
def reader : (depth : Nat) → Json.Reader Raw
  | 0 => valueWith Json.malformed Json.malformed
  | depth + 1 =>
    valueWith (.list <$> Json.items (reader depth)) (Json.faulty (.invalidType .map wanted))

def read (text : String) : Except Json.ReadError Raw :=
  Json.read (reader Json.nestingLimit) text

end Raw

end RunReport
