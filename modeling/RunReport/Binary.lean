/-!
# Doubles as exact numbers

A finite double is a sign and `m * 2 ^ e` for integers `m` and `e`, so whether it is whole and where
it rounds to is decided in integer arithmetic.
-/

namespace RunReport

structure Binary where
  negative : Bool
  mantissa : Nat
  exponent : Int

namespace Binary

/-- The number a finite double stands for. -/
def ofBits (bits : UInt64) : Binary :=
  let negative := bits.toNat >>> 63 == 1
  let fraction : Nat := bits.toNat % (1 <<< 52)
  let biased : Nat := (bits.toNat >>> 52) % (1 <<< 11)
  if biased = 0 then ⟨negative, fraction, -1074⟩
  else ⟨negative, (1 <<< 52) + fraction, (biased : Int) - 1075⟩

def ofFloat (x : Float) : Binary :=
  ofBits x.toBits

/-- The magnitude when it is whole. -/
def whole? (b : Binary) : Option Nat :=
  if 0 ≤ b.exponent then some (b.mantissa <<< b.exponent.toNat)
  else
    let unit := 1 <<< (-b.exponent).toNat
    if b.mantissa % unit = 0 then some (b.mantissa / unit) else none

/-- The whole number when there is no fraction. -/
def int? (b : Binary) : Option Int :=
  b.whole?.map fun n => if b.negative then -(n : Int) else n

/-- The whole number nearest to the magnitude; a half goes up. -/
def nearest (b : Binary) : Nat :=
  if 0 ≤ b.exponent then b.mantissa <<< b.exponent.toNat
  else
    let unit := 1 <<< (-b.exponent).toNat
    (2 * b.mantissa + unit) / (2 * unit)

end Binary

end RunReport
