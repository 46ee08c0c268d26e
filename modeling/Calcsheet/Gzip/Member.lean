import Calcsheet.Gzip.Inflate

/-!
# Gzip members

A member is a header with optional fields, deflated data, and a trailer with a check and the length
of the data. Only the first member is read; what follows it is left alone.
-/

namespace Calcsheet.Gzip

/-! ## The check -/

/-- The register of CRC-32 after one more bit has gone by. -/
def crcBit (r : UInt32) : UInt32 :=
  if r &&& 1 = 1 then (r >>> 1) ^^^ 0xEDB88320 else r >>> 1

/-- The register after one more byte. -/
def crcByte (r : UInt32) (b : UInt8) : UInt32 :=
  crcBit (crcBit (crcBit (crcBit (crcBit (crcBit (crcBit (crcBit (r ^^^ b.toUInt32))))))))

/-- The cyclic redundancy check CRC-32 of a list of bytes. -/
def crc32 (bytes : List UInt8) : UInt32 :=
  bytes.foldl crcByte 0xFFFFFFFF ^^^ 0xFFFFFFFF

/-! ## Reading -/

/-- Why bytes are no gzip member. -/
inductive Fault where
  /-- The bytes end in the header or the trailer. -/
  | unexpectedEnd
  | invalidHeader
  /-- A name or a comment in the header is longer than any that is read. -/
  | fieldTooLong
  /-- A check or the length of the data does not agree. -/
  | mismatch
  | deflated (fault : InflateFault)
  deriving DecidableEq, Repr, Inhabited

/-- What is wrong, in words. -/
def Fault.message : Fault → String
  | unexpectedEnd => "unexpected end of file"
  | invalidHeader => "invalid gzip header"
  | fieldTooLong => "gzip header field too long"
  | mismatch => "corrupt gzip stream does not have a matching checksum"
  | deflated .incomplete => "incomplete deflate stream"
  | deflated .corrupt => "corrupt deflate stream"

/-- The number that bytes stand for, lowest first. -/
def littleEndian : List UInt8 → Nat
  | [] => 0
  | b :: rest => b.toNat + 256 * littleEndian rest

/-- The first `n` bytes and the rest. -/
def takeBytes (n : Nat) (bytes : List UInt8) : Except Fault (List UInt8 × List UInt8) :=
  if bytes.length < n then .error .unexpectedEnd else .ok (bytes.take n, bytes.drop n)

/-- The bytes after the first zero byte. At most `room` others may come before it. -/
def skipPastZero (room : Nat) : List UInt8 → Except Fault (List UInt8)
  | [] => .error .unexpectedEnd
  | b :: rest =>
    if b = 0 then .ok rest
    else if room = 0 then .error .fieldTooLong
    else skipPastZero (room - 1) rest

/-- The most bytes that a name or a comment may have. -/
def fieldLimit : Nat := 65535

/-- The bytes after an extra field, which begins with its length. -/
def skipExtra (bytes : List UInt8) : Except Fault (List UInt8) := do
  let (size, bytes) ← takeBytes 2 bytes
  let (_, bytes) ← takeBytes (littleEndian size) bytes
  .ok bytes

/-- Runs a reader if a flag is set. -/
def whenSet (flags flag : UInt8) (skip : List UInt8 → Except Fault (List UInt8))
    (bytes : List UInt8) : Except Fault (List UInt8) :=
  if flags &&& flag = 0 then .ok bytes else skip bytes

/-- The bytes after a check of the header, which covers all of `whole` before it. -/
def skipHeaderCheck (whole bytes : List UInt8) : Except Fault (List UInt8) := do
  let (check, rest) ← takeBytes 2 bytes
  let header := whole.take (whole.length - bytes.length)
  if littleEndian check = (crc32 header).toNat % 65536 then .ok rest else .error .mismatch

/-- The flags of a header, if its first ten bytes are those of one. -/
def headerFlags? : List UInt8 → Option UInt8
  | magic₀ :: magic₁ :: method :: flags :: _ =>
    if magic₀ = 0x1F ∧ magic₁ = 0x8B ∧ method = 8 ∧ flags &&& 0xE0 = 0 then some flags else none
  | _ => none

/-- The bytes after the header. -/
def skipHeader (bytes : List UInt8) : Except Fault (List UInt8) := do
  let (fixed, rest) ← takeBytes 10 bytes
  match headerFlags? fixed with
  | none => .error .invalidHeader
  | some flags =>
    let rest ← whenSet flags 4 skipExtra rest
    let rest ← whenSet flags 8 (skipPastZero fieldLimit) rest
    let rest ← whenSet flags 16 (skipPastZero fieldLimit) rest
    whenSet flags 2 (skipHeaderCheck bytes) rest

/-- The data of the first member. -/
def decompress (bytes : List UInt8) : Except Fault (List UInt8) := do
  let deflated ← skipHeader bytes
  match inflate deflated with
  | .error fault => .error (.deflated fault)
  | .ok (data, rest) =>
    let (trailer, _) ← takeBytes 8 rest
    let check := littleEndian (trailer.take 4)
    let length := littleEndian (trailer.drop 4)
    if check = (crc32 data).toNat ∧ length = data.length % 4294967296 then .ok data
    else .error .mismatch

end Calcsheet.Gzip
