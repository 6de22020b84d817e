import RunReport.Codec.Inflate
/-!
# Zlib streams

A two-byte header, a deflate stream and the Adler-32 sum of the result. Bytes after the sum are not
looked at.
-/

namespace RunReport.Codec

def adlerModulus : Nat := 65521

/-- Two running sums over the bytes. -/
def adler32 (bytes : ByteArray) : Nat :=
  let (a, b) := bytes.foldl
    (fun (p : Nat × Nat) x =>
      let a := (p.1 + x.toNat) % adlerModulus
      (a, (p.2 + a) % adlerModulus))
    (1, 0)
  b * 65536 + a

/-- Method eight, a window of 32 KiB at most, no preset dictionary, and a check value. -/
def isZlibHeader (method flags : Nat) : Bool :=
  (method * 256 + flags) % 31 == 0 && method % 16 == 8 && method / 16 ≤ 7 && flags / 32 % 2 == 0

def bigEndian : Nat → BitSource → Option (Nat × BitSource)
  | 0, s => some (0, s)
  | n + 1, s => do
    let (b, s) ← s.bits 8
    let (rest, s) ← bigEndian n s
    some (b * 256 ^ n + rest, s)

def uncompress (bytes : List UInt8) : Option ByteArray := do
  let s : BitSource := ⟨⟨bytes.toArray⟩, 0⟩
  let (method, s) ← s.bits 8
  let (flags, s) ← s.bits 8
  if isZlibHeader method flags then
    let (out, s) ← inflateFrom s
    let (sum, _) ← bigEndian 4 s.align
    if sum = adler32 out then some out else none
  else none

end RunReport.Codec
