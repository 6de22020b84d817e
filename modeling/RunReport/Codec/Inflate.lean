/-!
# Inflate

Decompression of a deflate stream. Bits are taken from each byte from the lowest up; code words are
canonical, so a code is given by the lengths of its words. Every symbol takes a bit at least, so the
number of bits of the input bounds the run.
-/

namespace RunReport.Codec

/-- Input with the number of bits already taken. -/
structure BitSource where
  bytes : ByteArray
  taken : Nat

namespace BitSource

def bit (s : BitSource) : Option (Nat × BitSource) :=
  let i := s.taken / 8
  if h : i < s.bytes.size then
    some ((s.bytes[i].toNat >>> (s.taken % 8)) % 2, { s with taken := s.taken + 1 })
  else none

/-- The next `n` bits as a number, lowest first. -/
def bits (s : BitSource) : Nat → Option (Nat × BitSource)
  | 0 => some (0, s)
  | n + 1 => do
    let (b, s) ← s.bit
    let (rest, s) ← s.bits n
    some (b + 2 * rest, s)

/-- Skips to the next whole byte. -/
def align (s : BitSource) : BitSource :=
  { s with taken := (s.taken + 7) / 8 * 8 }

def size (s : BitSource) : Nat :=
  8 * s.bytes.size

end BitSource

/-- A canonical prefix code: how many words there are of each length from one up, and the symbols
in the order of their words. -/
structure PrefixCode where
  counts : List Nat
  symbols : Array Nat

def longestWord : Nat := 15

def wordCounts (lengths : List Nat) : List Nat :=
  (List.range longestWord).map fun i => lengths.countP (· == i + 1)

/-- Words left unused at the longest length; nothing when there are too many words. -/
def unusedWords (counts : List Nat) : Option Nat :=
  counts.foldlM (fun left n => if n ≤ 2 * left then some (2 * left - n) else none) 1

def PrefixCode.ofLengths (lengths : List Nat) : PrefixCode :=
  let symbols := (List.range longestWord).flatMap fun i =>
    (lengths.zipIdx.filter (·.1 == i + 1)).map (·.2)
  ⟨wordCounts lengths, symbols.toArray⟩

/-- A code without words, or with a single word of one bit. -/
def isSparse (lengths : List Nat) : Bool :=
  lengths.filter (· != 0) ∈ [[], [1]]

/-- A code must use all its words; a sparse one need not, unless it has to. -/
def PrefixCode.checked (needsAll : Bool) (lengths : List Nat) : Option PrefixCode := do
  let left ← unusedWords (wordCounts lengths)
  if left = 0 || (!needsAll && isSparse lengths) then some (PrefixCode.ofLengths lengths) else none

/-- Follows a word bit by bit: `first` is the first word of the current length and `index` the place
of its symbol. -/
def PrefixCode.symbolFrom (symbols : Array Nat) :
    List Nat → (code first index : Nat) → BitSource → Option (Nat × BitSource)
  | [], _, _, _, _ => none
  | n :: counts, code, first, index, s => do
    let (b, s) ← s.bit
    let code := code + b
    if code < first + n then
      let symbol ← symbols[index + (code - first)]?
      some (symbol, s)
    else symbolFrom symbols counts (2 * code) (2 * (first + n)) (index + n) s

def PrefixCode.symbol (c : PrefixCode) (s : BitSource) : Option (Nat × BitSource) :=
  symbolFrom c.symbols c.counts 0 0 0 s

def lengthBases : List (Nat × Nat) :=
  [(3, 0), (4, 0), (5, 0), (6, 0), (7, 0), (8, 0), (9, 0), (10, 0), (11, 1), (13, 1), (15, 1),
    (17, 1), (19, 2), (23, 2), (27, 2), (31, 2), (35, 3), (43, 3), (51, 3), (59, 3), (67, 4),
    (83, 4), (99, 4), (115, 4), (131, 5), (163, 5), (195, 5), (227, 5), (258, 0)]

def distanceBases : List (Nat × Nat) :=
  [(1, 0), (2, 0), (3, 0), (4, 0), (5, 1), (7, 1), (9, 2), (13, 2), (17, 3), (25, 3), (33, 4),
    (49, 4), (65, 5), (97, 5), (129, 6), (193, 6), (257, 7), (385, 7), (513, 8), (769, 8),
    (1025, 9), (1537, 9), (2049, 10), (3073, 10), (4097, 11), (6145, 11), (8193, 12), (12289, 12),
    (16385, 13), (24577, 13)]

/-- A base value with its extra bits. -/
def withExtra (table : List (Nat × Nat)) (i : Nat) (s : BitSource) : Option (Nat × BitSource) := do
  let (base, extra) ← table[i]?
  let (n, s) ← s.bits extra
  some (base + n, s)

/-- The byte that lies `distance` back. Before the first byte there are zeros. -/
def byteBack (distance : Nat) (out : ByteArray) : UInt8 :=
  if h : 0 < distance ∧ distance ≤ out.size then
    have : out.size - distance < out.size := by omega
    out[out.size - distance]
  else 0

/-- Repeats the bytes from `distance` back, which may overlap what is being written. -/
def copyBack (distance : Nat) : Nat → ByteArray → ByteArray
  | 0, out => out
  | n + 1, out => copyBack distance n (out.push (byteBack distance out))

def endOfBlock : Nat := 256

/-- Literals and matches up to the end of the block. -/
def compressedFrom (literals distances : PrefixCode) :
    (fuel : Nat) → BitSource → ByteArray → Option (ByteArray × BitSource)
  | 0, _, _ => none
  | fuel + 1, s, out => do
    let (symbol, s) ← literals.symbol s
    if symbol < endOfBlock then
      compressedFrom literals distances fuel s (out.push (UInt8.ofNat symbol))
    else if symbol = endOfBlock then some (out, s)
    else
      let (length, s) ← withExtra lengthBases (symbol - endOfBlock - 1) s
      let (code, s) ← distances.symbol s
      let (distance, s) ← withExtra distanceBases code s
      compressedFrom literals distances fuel s (copyBack distance length out)

def copyBytes : Nat → BitSource → ByteArray → Option (ByteArray × BitSource)
  | 0, s, out => some (out, s)
  | n + 1, s, out => do
    let (b, s) ← s.bits 8
    copyBytes n s (out.push (UInt8.ofNat b))

def stored (s : BitSource) (out : ByteArray) : Option (ByteArray × BitSource) := do
  let (length, s) ← s.align.bits 16
  let (inverse, s) ← s.bits 16
  if length + inverse = 0xffff then copyBytes length s out else none

def fixedLiterals : PrefixCode :=
  .ofLengths (List.replicate 144 8 ++ List.replicate 112 9 ++ List.replicate 24 7
    ++ List.replicate 8 8)

def fixedDistances : PrefixCode :=
  .ofLengths (List.replicate 30 5)

/-- The order in which the lengths of the length code are given. -/
def lengthCodeOrder : List Nat :=
  [16, 17, 18, 0, 8, 7, 9, 6, 10, 5, 11, 4, 12, 3, 13, 2, 14, 1, 15]

def lengthCodeLengths : List Nat → BitSource → Option (List (Nat × Nat) × BitSource)
  | [], s => some ([], s)
  | i :: is, s => do
    let (n, s) ← s.bits 3
    let (rest, s) ← lengthCodeLengths is s
    some ((i, n) :: rest, s)

/-- Word lengths written with the length code, newest first, until there are `total`. -/
def lengthsFrom (code : PrefixCode) (total : Nat) :
    (fuel : Nat) → List Nat → BitSource → Option (List Nat × BitSource)
  | 0, _, _ => none
  | fuel + 1, done, s =>
    if total ≤ done.length then
      if done.length = total then some (done.reverse, s) else none
    else do
      let (symbol, s) ← code.symbol s
      if symbol < 16 then lengthsFrom code total fuel (symbol :: done) s
      else if symbol = 16 then
        let last ← done.head?
        let (n, s) ← s.bits 2
        lengthsFrom code total fuel (List.replicate (n + 3) last ++ done) s
      else if symbol = 17 then
        let (n, s) ← s.bits 3
        lengthsFrom code total fuel (List.replicate (n + 3) 0 ++ done) s
      else
        let (n, s) ← s.bits 7
        lengthsFrom code total fuel (List.replicate (n + 11) 0 ++ done) s

/-- The two codes of a block that brings its own. -/
def ownCodes (s : BitSource) : Option ((PrefixCode × PrefixCode) × BitSource) := do
  let (a, s) ← s.bits 5
  let (b, s) ← s.bits 5
  let (c, s) ← s.bits 4
  let literals := a + 257
  let distances := b + 1
  if 286 < literals || 30 < distances then none
  else
    let (given, s) ← lengthCodeLengths (lengthCodeOrder.take (c + 4)) s
    let code ← PrefixCode.checked true ((List.range 19).map fun i => (given.lookup i).getD 0)
    let (lengths, s) ← lengthsFrom code (literals + distances) (literals + distances + 1) [] s
    let literalCode ← PrefixCode.checked false (lengths.take literals)
    let distanceCode ← PrefixCode.checked false (lengths.drop literals)
    some ((literalCode, distanceCode), s)

/-- Blocks up to the last one. -/
def blocksFrom : (fuel : Nat) → BitSource → ByteArray → Option (ByteArray × BitSource)
  | 0, _, _ => none
  | fuel + 1, s, out => do
    let (last, s) ← s.bit
    let (kind, s) ← s.bits 2
    let (out, s) ←
      if kind = 0 then stored s out
      else if kind = 1 then compressedFrom fixedLiterals fixedDistances s.size s out
      else if kind = 2 then do
        let ((literals, distances), s) ← ownCodes s
        compressedFrom literals distances s.size s out
      else none
    if last = 1 then some (out, s) else blocksFrom fuel s out

def inflateFrom (s : BitSource) : Option (ByteArray × BitSource) :=
  blocksFrom s.size s .empty

end RunReport.Codec
