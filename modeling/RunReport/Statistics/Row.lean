import RunReport.Binary
import RunReport.Json.Number
/-!
# Statistics rows

Counts of passed, failed and skipped tests with the percentages and bar widths they are shown with,
all in tenths of a percent. A count that is not zero never shows as nothing, nor does a part show as
the whole while the sum of the counts fits 64 bits. Widths of at least one percent are kept for every
count, and what is then too much is taken from the widest.
-/

namespace RunReport

/-- One value for each outcome. -/
structure PerOutcome (α : Type) where
  pass : α
  fail : α
  skip : α
  deriving DecidableEq, Repr

namespace PerOutcome

def map {α β : Type} (f : α → β) (p : PerOutcome α) : PerOutcome β :=
  ⟨f p.pass, f p.fail, f p.skip⟩

def sum (p : PerOutcome Nat) : Nat :=
  p.pass + p.fail + p.skip

def largest (p : PerOutcome Nat) : Nat :=
  max p.pass (max p.fail p.skip)

end PerOutcome

namespace Share

def wholeTenths : Nat := 1000

/-- Counts are 64-bit numbers; a sum that does not fit stays at the largest. -/
def saturatingAdd (a b : Nat) : Nat :=
  min (a + b) Json.maxU64

def total (counts : PerOutcome Nat) : Nat :=
  saturatingAdd (saturatingAdd counts.pass counts.fail) counts.skip

/-- Ten times the percentage, computed in doubles and rounded to the nearest whole number. -/
def roundedTenths (count total : Nat) : Nat :=
  let exact := 100.0 * (UInt64.ofNat count).toFloat / (UInt64.ofNat total).toFloat
  (Binary.ofFloat (exact * 10.0)).nearest

def percentTenths (count total : Nat) : Nat :=
  if count = 0 then 0
  else
    let rounded := roundedTenths count total
    if rounded < 1 then 1
    else if wholeTenths ≤ rounded && count < total then wholeTenths - 1
    else rounded

def percents (counts : PerOutcome Nat) : PerOutcome Nat :=
  let all := total counts
  if all = 0 then ⟨0, 0, 0⟩ else counts.map (percentTenths · all)

def raised (percent : Nat) : Nat :=
  if 0 < percent && percent < 10 then 10 else percent

/-- Takes a tenth from the widest; of equals the passed give first, then the skipped. -/
def shave (w : PerOutcome Nat) : PerOutcome Nat :=
  let most := w.largest
  if w.pass = most then { w with pass := w.pass - 1 }
  else if w.skip = most then { w with skip := w.skip - 1 }
  else { w with fail := w.fail - 1 }

/-- Shaves until the widths fit, `fuel` times at most. -/
def shaveFrom : (fuel : Nat) → PerOutcome Nat → PerOutcome Nat
  | 0, w => w
  | fuel + 1, w => if w.sum ≤ wholeTenths then w else shaveFrom fuel (shave w)

def widths (percents : PerOutcome Nat) : PerOutcome Nat :=
  let w := percents.map raised
  shaveFrom w.sum w

end Share

structure StatisticRow where
  label : String
  counts : PerOutcome Nat
  total : Nat
  percents : PerOutcome Nat
  widths : PerOutcome Nat

def StatisticRow.ofCounts (label : String) (counts : PerOutcome Nat) : StatisticRow :=
  let percents := Share.percents counts
  { label, counts, total := Share.total counts, percents
    widths := Share.widths percents }

end RunReport
