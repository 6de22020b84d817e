import RunReport.Calendar
import RunReport.Json.Number
/-!
# Times of a node

A report gives start times as offsets from a base time. A node may have no start; then it has no
end either. Offsets are 64-bit integers and sums that do not fit are no times.
-/

namespace RunReport

structure Times where
  start : Option Instant
  stop : Option Instant
  elapsed : Int
  deriving DecidableEq, Repr

namespace Times

/-- The sum of two 64-bit integers when it is one too. -/
def checkedAdd (a b : Int) : Option Int :=
  if Json.fitsI64 (a + b) then some (a + b) else none

/-- The instant `offset` after `base`. -/
def timestamp (base offset : Int) : Option Instant := do
  let millis ← checkedAdd base offset
  if Calendar.isRepresentable millis then some ⟨millis⟩ else none

def timestampEnd (base offset elapsed : Int) : Option Instant := do
  timestamp base (← checkedAdd offset elapsed)

def ofOffsets (base : Int) (start : Option Int) (elapsed : Int) : Times :=
  { start := start.bind (timestamp base ·)
    stop := start.bind (timestampEnd base · elapsed)
    elapsed }

/-- Whether a start and its end are instants. -/
def inRange (base : Int) (start : Option Int) (elapsed : Int) : Bool :=
  match start with
  | none => true
  | some offset => (timestamp base offset).isSome && (timestampEnd base offset elapsed).isSome

def notAvailable : String := "N/A"

def showDateTime (t : Option Instant) : String :=
  (t.map Instant.showDateTime).getD notAvailable

def showDate (t : Option Instant) : String :=
  (t.map Instant.showDate).getD notAvailable

def showTime (t : Option Instant) : String :=
  (t.map Instant.showTime).getD notAvailable

/-- Hours are not wrapped at a day, and a negative duration shows as none. -/
def showElapsed (elapsed : Int) : String :=
  let n := elapsed.toNat
  Text.padZero 2 (n / 3600000) ++ ":" ++ Text.padZero 2 (n / 60000 % 60) ++ ":"
    ++ Text.padZero 2 (n / 1000 % 60) ++ "." ++ Text.padZero 3 (n % 1000)

def elapsedTime (t : Times) : String :=
  showElapsed t.elapsed

end Times

end RunReport
