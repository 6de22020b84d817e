import RunReport.Json.Shortest
import RunReport.Text.Quoted
/-!
# What can be wrong with a JSON text

A text is either not JSON at all, or it is JSON of another shape than the one asked for. Reading
goes from left to right and stops at the first problem of either sort.
-/

namespace RunReport.Json

/-- The kind of value that stands where another was wanted. -/
inductive Found where
  | null
  | boolean (b : Bool)
  | integer (n : Int)
  | floating (x : Float)
  | string (s : String)
  | sequence
  | map

def Found.text : Found → String
  | .null => "null"
  | .boolean b => s!"boolean `{b}`"
  | .integer n => s!"integer `{n}`"
  | .floating x => "floating point `" ++ showFloat x ++ "`"
  | .string s => "string " ++ Text.quoted s
  | .sequence => "sequence"
  | .map => "map"

/-- A well-formed text of the wrong shape. -/
inductive Fault where
  | missingField (name : String)
  | duplicateField (name : String)
  | invalidType (found : Found) (wanted : String)
  | invalidValue (n : Int) (wanted : String)
  | invalidLength (n : Nat) (wanted : String)
  | unknownVariant (name : String) (known : List String)
  | refused (reason : String)

def Fault.message : Fault → String
  | .missingField name => s!"missing field `{name}`"
  | .duplicateField name => s!"duplicate field `{name}`"
  | .invalidType found wanted => s!"invalid type: {found.text}, expected {wanted}"
  | .invalidValue n wanted => s!"invalid value: integer `{n}`, expected {wanted}"
  | .invalidLength n wanted => s!"invalid length {n}, expected {wanted}"
  | .unknownVariant name known =>
    s!"unknown variant `{name}`, expected one of "
      ++ ", ".intercalate (known.map fun k => "`" ++ k ++ "`")
  | .refused reason => reason

inductive ReadError where
  | malformed
  | fault (f : Fault)

/-- Reads a value from the front of a text and leaves the rest. -/
abbrev Reader (α : Type) := StateT (List Char) (Except ReadError) α

def malformed {α : Type} : Reader α :=
  throw .malformed

def faulty {α : Type} (f : Fault) : Reader α :=
  throw (.fault f)

end RunReport.Json
