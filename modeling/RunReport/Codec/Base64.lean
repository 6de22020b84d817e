/-!
# Base64

The standard alphabet with padding, read strictly: the text is a row of groups of four characters,
only the last may be padded, the bits that padding leaves unused are zero, and nothing else occurs.
-/

namespace RunReport.Codec.Base64

def sextet? (c : Char) : Option Nat :=
  if 'A' ≤ c && c ≤ 'Z' then some (c.toNat - 'A'.toNat)
  else if 'a' ≤ c && c ≤ 'z' then some (c.toNat - 'a'.toNat + 26)
  else if '0' ≤ c && c ≤ '9' then some (c.toNat - '0'.toNat + 52)
  else if c = '+' then some 62
  else if c = '/' then some 63
  else none

def byte (n : Nat) : UInt8 :=
  UInt8.ofNat n

/-- The one or two bytes of a padded group. -/
def lastGroup (a b c : Char) : Option (List UInt8) := do
  let x ← sextet? a
  let y ← sextet? b
  if c = '=' then
    if y % 16 = 0 then some [byte (x * 4 + y / 16)] else none
  else
    let z ← sextet? c
    if z % 4 = 0 then some [byte (x * 4 + y / 16), byte (y * 16 + z / 4)] else none

def group (a b c d : Char) : Option (List UInt8) := do
  let x ← sextet? a
  let y ← sextet? b
  let z ← sextet? c
  let w ← sextet? d
  some [byte (x * 4 + y / 16), byte (y * 16 + z / 4), byte (z * 64 + w)]

def decode : List Char → Option (List UInt8)
  | [] => some []
  | a :: b :: c :: d :: rest =>
    if d = '=' && rest.isEmpty then lastGroup a b c
    else do
      let bytes ← group a b c d
      let more ← decode rest
      some (bytes ++ more)
  | _ => none

end RunReport.Codec.Base64
