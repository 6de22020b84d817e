import RunReport.Json.Fault
/-!
# Numbers

A number without fraction and exponent is an integer when it fits 64 bits. Every other number is a
double: the digits are gathered into an unsigned 64-bit significand as long as they fit, and the
significand is scaled by a power of ten in one multiplication or division. So the double is within
one rounding of each step, not always the nearest to the decimal.
-/

namespace RunReport.Json

inductive Number where
  | int (n : Int)
  | float (x : Float)

def maxU64 : Nat := 0xFFFFFFFFFFFFFFFF

def maxI64 : Nat := 0x7FFFFFFFFFFFFFFF

def fitsI64 (n : Int) : Bool :=
  -0x8000000000000000 ≤ n && n < 0x8000000000000000

/-- The text of a number, cut into its parts. -/
structure NumberText where
  negative : Bool
  whole : List Nat
  fraction : Option (List Nat)
  exponent : Option (Bool × List Nat)

def digit? (c : Char) : Option Nat :=
  if c.isDigit then some (c.toNat - '0'.toNat) else none

def digits : List Char → List Nat × List Char
  | [] => ([], [])
  | c :: cs =>
    match digit? c with
    | some d => let (ds, rest) := digits cs; (d :: ds, rest)
    | none => ([], c :: cs)

/-- One digit or more. -/
def someDigits : Reader (List Nat) := fun cs =>
  match digits cs with
  | ([], _) => .error .malformed
  | (ds, rest) => .ok (ds, rest)

/-- A whole part has no leading zero. -/
def wholePart : Reader (List Nat) := fun cs =>
  match digits cs with
  | ([], _) => .error .malformed
  | (0 :: _ :: _, _) => .error .malformed
  | (ds, rest) => .ok (ds, rest)

def fractionPart : Reader (Option (List Nat)) := fun cs =>
  match cs with
  | '.' :: rest => (some <$> someDigits) rest
  | _ => .ok (none, cs)

def exponentDigits : Reader (Bool × List Nat) := fun cs =>
  match cs with
  | '+' :: rest => ((true, ·) <$> someDigits) rest
  | '-' :: rest => ((false, ·) <$> someDigits) rest
  | _ => ((true, ·) <$> someDigits) cs

def exponentPart : Reader (Option (Bool × List Nat)) := fun cs =>
  match cs with
  | 'e' :: rest => (some <$> exponentDigits) rest
  | 'E' :: rest => (some <$> exponentDigits) rest
  | _ => .ok (none, cs)

def numberSign : Reader Bool := fun cs =>
  match cs with
  | '-' :: rest => .ok (true, rest)
  | _ => .ok (false, cs)

def numberText : Reader NumberText := do
  let negative ← numberSign
  let whole ← wholePart
  let fraction ← fractionPart
  let exponent ← exponentPart
  return ⟨negative, whole, fraction, exponent⟩

/-- Gathers digits while they fit; the count is of the digits left out. -/
def gather (significand : Nat) : List Nat → Nat × Nat
  | [] => (significand, 0)
  | d :: ds =>
    if significand * 10 + d ≤ maxU64 then gather (significand * 10 + d) ds
    else (significand, ds.length + 1)

def powerOfTen (n : Nat) : Float :=
  Float.ofScientific 1 false n

/-- Divides by the largest power of ten until the rest of the exponent is in reach. -/
def scaleDown : Nat → Float → Nat → Float
  | 0, _, _ => 0.0
  | fuel + 1, x, n =>
    if n ≤ 308 then x / powerOfTen n
    else if x == 0.0 then x
    else scaleDown fuel (x / powerOfTen 308) (n - 308)

/-- `significand * 10 ^ exponent`; nothing when that is too large. -/
def scale (significand : Nat) (exponent : Int) : Option Float :=
  let x := (UInt64.ofNat significand).toFloat
  if exponent < 0 then some (scaleDown 4 x (-exponent).toNat)
  else if 308 < exponent then (if x == 0.0 then some x else none)
  else
    let y := x * powerOfTen exponent.toNat
    if y.isInf then none else some y

def largestExponent : Nat := 0x7FFFFFFF

def digitsValue (ds : List Nat) : Nat :=
  ds.foldl (fun n d => n * 10 + d) 0

/-- The magnitude of a number with a fraction, an exponent or too many digits. -/
def NumberText.magnitude (t : NumberText) : Option Float :=
  let (whole, left) := gather 0 t.whole
  let fraction := t.fraction.getD []
  let (significand, unused) := gather whole fraction
  let shift : Int := (left : Int) - ((fraction.length - unused : Nat) : Int)
  match t.exponent with
  | none => scale significand shift
  | some (positive, ds) =>
    let e := digitsValue ds
    if largestExponent < e then
      if positive && significand != 0 then none else some 0.0
    else scale significand (if positive then shift + e else shift - e)

def NumberText.number (t : NumberText) : Option Number :=
  let value := digitsValue t.whole
  let floating : Option Number :=
    t.magnitude.map fun x => .float (if t.negative then -x else x)
  match t.fraction, t.exponent with
  | none, none =>
    if maxU64 < value then floating
    else if !t.negative then some (.int value)
    else if value = 0 then some (.float (-0.0))
    else if value ≤ maxI64 + 1 then some (.int (-(value : Int)))
    else some (.float (-(UInt64.ofNat value).toFloat))
  | _, _ => floating

/-- A number too large for a double is malformed. -/
def number : Reader Number := do
  match (← numberText).number with
  | some n => return n
  | none => malformed

end RunReport.Json
