import RunReport.Json.Fault
/-!
# Errors

Why a report, a record of it or a split file cannot be used. Every cause is a constructor; the
wording is in `message`.
-/

namespace RunReport

/-- What is wrong with the shape of a compact value. -/
inductive Defect where
  | wrongKind (wanted found : String)
  | missingSlot (index size : Nat)
  | emptyRecord
  | negativeId (id : Int)
  | oddEntries (size : Nat)
  | negativeCount (count : Int)
  | timesOutOfRange (start : Option Int) (elapsed : Int)
  | noChildren (found : String)
  | emptyRow
  | missingCount (slot : Nat)
  deriving DecidableEq, Repr

def Defect.message : Defect → String
  | .wrongKind wanted found => s!"expected {wanted}, found {found}"
  | .missingSlot index size => s!"missing slot {index} (record has {size})"
  | .emptyRecord => "empty record"
  | .negativeId id => s!"negative id {id}"
  | .oddEntries size => s!"odd number of entries ({size})"
  | .negativeCount count => s!"negative count {count}"
  | .timesOutOfRange (some start) elapsed => s!"time offsets out of range (Some({start}), {elapsed})"
  | .timesOutOfRange none elapsed => s!"time offsets out of range (None, {elapsed})"
  | .noChildren found => s!"expected list or split index, found {found}"
  | .emptyRow => "empty row"
  | .missingCount slot => s!"missing count in slot {slot}"

inductive Error where
  | json (cause : Json.ReadError)
  | base64 (id : Nat)
  | inflate (id : Nat)
  | utf8 (id : Nat)
  | shape (context : String) (defect : Defect)
  | unknownCode (what code : String)
  | deferredUnsupported (version : Nat) (index : Int)
  | unsupportedVersion (version : Nat)
  | sessionClosed
  | loadAbandoned (name : String)
  | unreadable

def Error.message : Error → String
  | .json .malformed => "JSON error: malformed text"
  | .json (.fault f) => s!"JSON error: {f.message}"
  | .base64 id => s!"Invalid base64 in string table entry {id}"
  | .inflate id => s!"Failed to inflate string table entry {id}"
  | .utf8 id => s!"String table entry {id} is not UTF-8"
  | .shape context defect => s!"Malformed {context}: {defect.message}"
  | .unknownCode what code => s!"Unknown {what} code: {code}"
  | .deferredUnsupported version index =>
    s!"Format version {version} does not support split files (index {index})"
  | .unsupportedVersion version => s!"Unsupported format version: {version}"
  | .sessionClosed => "Report session is closed"
  | .loadAbandoned name => s!"Load of {name} was abandoned before the file arrived"
  | .unreadable => "I/O error: file cannot be read"

end RunReport
