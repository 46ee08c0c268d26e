/-!
# Bits of compressed data

Compressed data is read bit by bit, each byte from its lowest bit up. A number is written with its
lowest bit first. Data can end too early or be wrong, and the two are told apart.
-/

namespace Calcsheet.Gzip

/-- Why compressed data cannot be read. -/
inductive InflateFault where
  /-- The data ends where more is needed. -/
  | incomplete
  /-- The data breaks the rules of the format. -/
  | corrupt
  deriving DecidableEq, Repr, Inhabited

/-- Reads something from the front of the bits and gives the rest. -/
abbrev BitReader (α : Type) := List Bool → Except InflateFault (α × List Bool)

/-- The lowest `n` bits of a number, lowest first. -/
def bitsOfNat : Nat → Nat → List Bool
  | 0, _ => []
  | n + 1, v => (v % 2 = 1) :: bitsOfNat n (v / 2)

/-- The number with the given bits, lowest first. -/
def natOfBits : List Bool → Nat
  | [] => 0
  | b :: rest => b.toNat + 2 * natOfBits rest

/-- The bits of bytes in order. -/
def bitsOfBytes : List UInt8 → List Bool
  | [] => []
  | b :: rest => bitsOfNat 8 b.toNat ++ bitsOfBytes rest

/-- The bytes of bits in order; bits that fill no byte are dropped. -/
def bytesOfBits : List Bool → List UInt8
  | b₀ :: b₁ :: b₂ :: b₃ :: b₄ :: b₅ :: b₆ :: b₇ :: rest =>
    UInt8.ofNat (natOfBits [b₀, b₁, b₂, b₃, b₄, b₅, b₆, b₇]) :: bytesOfBits rest
  | _ => []

/-- Reads `n` bits. -/
def takeBits : Nat → BitReader (List Bool)
  | 0, bits => .ok ([], bits)
  | _ + 1, [] => .error .incomplete
  | n + 1, b :: bits =>
    match takeBits n bits with
    | .ok (taken, rest) => .ok (b :: taken, rest)
    | .error fault => .error fault

/-- Reads a number of `n` bits. -/
def takeNat (n : Nat) : BitReader Nat := fun bits =>
  match takeBits n bits with
  | .ok (taken, rest) => .ok (natOfBits taken, rest)
  | .error fault => .error fault

/-- Drops bits up to the next byte, given that the data ends with a byte. -/
def alignToByte (bits : List Bool) : List Bool :=
  bits.drop (bits.length % 8)

end Calcsheet.Gzip
