import Calcsheet.Gzip.Huffman

/-!
# Inflating

Deflated data is a row of blocks. A block holds bytes as they are, or symbols under two prefix
codes: a symbol is a byte, the end of the block, or the length of a stretch to be repeated from
some distance back. The codes are fixed ones or stand at the front of the block, themselves under
a code.
-/

namespace Calcsheet.Gzip

/-- The output so far and the bits to come. -/
abbrev InflateState := Array UInt8 × List Bool

/-! ## Symbols -/

/-- The least length and the number of further bits for each length symbol from 257 on. -/
def lengthRules : List (Nat × Nat) :=
  [(3, 0), (4, 0), (5, 0), (6, 0), (7, 0), (8, 0), (9, 0), (10, 0), (11, 1), (13, 1), (15, 1),
   (17, 1), (19, 2), (23, 2), (27, 2), (31, 2), (35, 3), (43, 3), (51, 3), (59, 3), (67, 4),
   (83, 4), (99, 4), (115, 4), (131, 5), (163, 5), (195, 5), (227, 5), (258, 0)]

/-- The least distance and the number of further bits for each distance symbol. -/
def distanceRules : List (Nat × Nat) :=
  [(1, 0), (2, 0), (3, 0), (4, 0), (5, 1), (7, 1), (9, 2), (13, 2), (17, 3), (25, 3), (33, 4),
   (49, 4), (65, 5), (97, 5), (129, 6), (193, 6), (257, 7), (385, 7), (513, 8), (769, 8),
   (1025, 9), (1537, 9), (2049, 10), (3073, 10), (4097, 11), (6145, 11), (8193, 12), (12289, 12),
   (16385, 13), (24577, 13)]

/-- Reads the number that a symbol of a table begins. -/
def takeByRule (rules : List (Nat × Nat)) (symbol : Nat) : BitReader Nat := fun bits =>
  match rules[symbol]? with
  | none => .error .corrupt
  | some (least, further) => do
    let (extra, bits) ← takeNat further bits
    .ok (least + extra, bits)

/-- Repeats `count` bytes from `distance` back; a stretch may run into its own repetition. -/
def repeatBack (distance : Nat) : Nat → Array UInt8 → Array UInt8
  | 0, out => out
  | count + 1, out =>
    repeatBack distance count (out.push ((out[out.size - distance]?).getD 0))

/-- Reads the symbols of a block. Each takes at least one bit, so the number of bits suffices for
`fuel`. -/
def symbols (lengths distances : CodeTree) : Nat → InflateState → Except InflateFault InflateState
  | 0, _ => .error .incomplete
  | fuel + 1, (out, bits) => do
    let (symbol, bits) ← lengths.read bits
    if symbol < 256 then symbols lengths distances fuel (out.push (UInt8.ofNat symbol), bits)
    else if symbol = 256 then .ok (out, bits)
    else
      let (length, bits) ← takeByRule lengthRules (symbol - 257) bits
      let (symbol, bits) ← distances.read bits
      let (distance, bits) ← takeByRule distanceRules symbol bits
      if out.size < distance then .error .corrupt
      else symbols lengths distances fuel (repeatBack distance length out, bits)

/-! ## Blocks -/

/-- The lengths of the fixed code for bytes and lengths. -/
def fixedLengths : List Nat :=
  List.replicate 144 8 ++ List.replicate 112 9 ++ List.replicate 24 7 ++ List.replicate 8 8

/-- The lengths of the fixed code for distances. -/
def fixedDistances : List Nat :=
  List.replicate 32 5

/-- A block of bytes as they are, after their number and its complement. -/
def storedBlock : InflateState → Except InflateFault InflateState
  | (out, bits) => do
    let (length, bits) ← takeNat 16 (alignToByte bits)
    let (complement, bits) ← takeNat 16 bits
    if length + complement ≠ 0xFFFF then .error .corrupt
    else do
      let (taken, bits) ← takeBits (8 * length) bits
      .ok (out ++ (bytesOfBits taken).toArray, bits)

/-- The order in which the lengths of the code for lengths are written. -/
def lengthOrder : List Nat :=
  [16, 17, 18, 0, 8, 7, 9, 6, 10, 5, 11, 4, 12, 3, 13, 2, 14, 1, 15]

/-- Reads `count` lengths of three bits into their places. -/
def takeOrdered (lengths : List Nat) : List Nat → Nat → BitReader (List Nat)
  | _, 0, bits => .ok (lengths, bits)
  | [], _ + 1, bits => .ok (lengths, bits)
  | place :: order, count + 1, bits => do
    let (length, bits) ← takeNat 3 bits
    takeOrdered (lengths.set place length) order count bits

/-- The code for lengths. If no length is used, every bit reads as length 0. -/
def lengthCode (lengths : List Nat) : Except InflateFault CodeTree :=
  if lengths.all (· = 0) then .ok (.fork (.leaf 0) (.leaf 0))
  else if validLengths false lengths then .ok (codeOfLengths lengths)
  else .error .corrupt

/-- How often which length is repeated by a symbol, given the length before. -/
def takeRepeat (symbol : Nat) (previous? : Option Nat) : BitReader (Nat × Nat) := fun bits =>
  if symbol < 16 then .ok ((symbol, 1), bits)
  else if symbol = 16 then do
    let (extra, bits) ← takeNat 2 bits
    match previous? with
    | some previous => .ok ((previous, 3 + extra), bits)
    | none => .error .corrupt
  else if symbol = 17 then do
    let (extra, bits) ← takeNat 3 bits
    .ok ((0, 3 + extra), bits)
  else do
    let (extra, bits) ← takeNat 7 bits
    .ok ((0, 11 + extra), bits)

/-- Reads lengths under a code until there are `total`; `read` holds those read, last first. -/
def takeLengths (code : CodeTree) (total : Nat) : Nat → List Nat → BitReader (List Nat)
  | 0, _, _ => .error .incomplete
  | fuel + 1, read, bits =>
    if total ≤ read.length then .ok (read.reverse, bits)
    else do
      let (symbol, bits) ← code.read bits
      let ((length, count), bits) ← takeRepeat symbol read.head? bits
      if total < read.length + count then .error .corrupt
      else takeLengths code total fuel (List.replicate count length ++ read) bits

/-- Reads the two codes at the front of a block. The end of the block has to have a symbol. -/
def takeCodes : BitReader (CodeTree × CodeTree) := fun bits => do
  let (sizes, bits) ← takeNat 14 bits
  let lengthCount := sizes % 32 + 257
  let distanceCount := sizes / 32 % 32 + 1
  let orderCount := sizes / 1024 + 4
  if 286 < lengthCount ∨ 30 < distanceCount then .error .corrupt
  else do
    let (ordered, bits) ← takeOrdered (List.replicate 19 0) lengthOrder orderCount bits
    let code ← lengthCode ordered
    let total := lengthCount + distanceCount
    let (all, bits) ← takeLengths code total (total + 1) [] bits
    let lengths := all.take lengthCount
    let distances := all.drop lengthCount
    if lengths[256]? = some 0 then .error .corrupt
    else if validLengths true lengths && validLengths true distances then
      .ok ((codeOfLengths lengths, codeOfLengths distances), bits)
    else .error .corrupt

/-- Reads one block after its header. -/
def block (type : Nat) : InflateState → Except InflateFault InflateState
  | (out, bits) =>
    match type with
    | 0 => storedBlock (out, bits)
    | 1 => symbols (codeOfLengths fixedLengths) (codeOfLengths fixedDistances) (bits.length + 1)
        (out, bits)
    | 2 => do
      let ((lengths, distances), bits) ← takeCodes bits
      symbols lengths distances (bits.length + 1) (out, bits)
    | _ => .error .corrupt

/-- Reads blocks up to the last one. Each takes at least three bits, so the number of bits suffices
for `fuel`. -/
def blocks : Nat → InflateState → Except InflateFault InflateState
  | 0, _ => .error .incomplete
  | fuel + 1, (out, bits) => do
    let (header, bits) ← takeNat 3 bits
    let state ← block (header / 2) (out, bits)
    if header % 2 = 1 then .ok state else blocks fuel state

/-- The data that deflated bytes stand for, and the bytes after them. -/
def inflate (bytes : List UInt8) : Except InflateFault (List UInt8 × List UInt8) := do
  let bits := bitsOfBytes bytes
  let (out, rest) ← blocks (bits.length + 1) (#[], bits)
  .ok (out.toList, bytesOfBits (alignToByte rest))

end Calcsheet.Gzip
