import RunReport.Binary
/-!
# Shortest decimals

A finite double is written with the fewest significant digits that still read back as it, and with
the nearest such decimal when there are several. The search is exact: a double is `m * 2 ^ q`, the
reals that round to it form an interval around it, and each count of digits is tried in turn.
-/

namespace RunReport.Json

/-- `digits * 10 ^ power`. -/
structure Decimal where
  digits : Nat
  power : Int

/-- The ratio `a * 2 ^ q / 10 ^ p` as a pair of naturals. -/
def ratio (a : Nat) (q p : Int) : Nat × Nat :=
  ((a <<< q.toNat) * Nat.pow 10 (-p).toNat, Nat.pow 10 p.toNat <<< (-q).toNat)

/-- The decimal on the grid of step `10 ^ p` that reads back as the double, if there is one. The
ends of the interval count when the mantissa is even; of two candidates the nearer wins, and the
even one on a tie. -/
def onGrid (b : Binary) (p : Int) : Option Nat :=
  -- in quarters of the last place: the value is 4m, its neighbours' midpoints 4m - 2 (or 4m - 1
  -- below a power of two) and 4m + 2
  let q := b.exponent - 2
  let low := 4 * b.mantissa - (if b.mantissa = 1 <<< 52 && b.exponent > -1074 then 1 else 2)
  let high := 4 * b.mantissa + 2
  let (vn, vd) := ratio (4 * b.mantissa) q p
  let (ln, _) := ratio low q p
  let (hn, _) := ratio high q p
  let inside (d : Nat) : Bool :=
    if b.mantissa % 2 = 0 then ln ≤ d * vd && d * vd ≤ hn else ln < d * vd && d * vd < hn
  let below := vn / vd
  let above := below + 1
  let twice := 2 * (vn - below * vd)
  let pickBelow := twice < vd || (twice = vd && below % 2 = 0)
  match inside below && below != 0, inside above with
  | true, true => some (if pickBelow then below else above)
  | true, false => some below
  | false, true => some above
  | false, false => none

/-- The first grid with a candidate, from the coarsest to the finest. -/
def shortestFrom (b : Binary) : Nat → Int → Decimal
  | 0, p => ⟨b.mantissa, p⟩
  | fuel + 1, p =>
    match onGrid b p with
    | some d => ⟨d, p⟩
    | none => shortestFrom b fuel (p - 1)

/-- Number of decimal digits of `m * 2 ^ q`, or one too many. -/
def magnitude (b : Binary) : Int :=
  if 0 ≤ b.exponent then
    (toString (b.mantissa <<< b.exponent.toNat)).length
  else
    let whole := b.mantissa >>> (-b.exponent).toNat
    if whole = 0 then
      -- count how often ten fits before the first unit
      (toString b.mantissa).length - ((-b.exponent) * 30102 / 100000) + 1
    else (toString whole).length

def stripZeros : Nat → Decimal → Decimal
  | 0, d => d
  | fuel + 1, d =>
    if d.digits % 10 = 0 && d.digits != 0 then stripZeros fuel ⟨d.digits / 10, d.power + 1⟩ else d

def shortest (b : Binary) : Decimal :=
  stripZeros 400 (shortestFrom b 40 (magnitude b))

/-- Positional from `1e-5` up to `1e16` with at least one decimal, with a signed exponent otherwise. -/
def showDecimal (d : Decimal) : String :=
  let digits := toString d.digits
  let len := digits.length
  let point : Int := d.power + len
  if 0 ≤ d.power && point ≤ 16 then
    digits ++ String.ofList (List.replicate d.power.toNat '0') ++ ".0"
  else if 0 < point && point ≤ 16 then
    (digits.take point.toNat).toString ++ "." ++ (digits.drop point.toNat).toString
  else if -5 < point && point ≤ 0 then
    "0." ++ String.ofList (List.replicate (-point).toNat '0') ++ digits
  else
    let mantissa :=
      if len = 1 then digits else (digits.take 1).toString ++ "." ++ (digits.drop 1).toString
    mantissa ++ (if 0 < point then "e+" else "e") ++ toString (point - 1)

def showFloat (x : Float) : String :=
  let b := Binary.ofFloat x
  (if b.negative then "-" else "") ++ (if b.mantissa = 0 then "0.0" else showDecimal (shortest b))

end RunReport.Json
