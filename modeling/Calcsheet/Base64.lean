import Calcsheet.Text.Numeral

/-!
# Base64

The standard alphabet with padding. Data comes in groups of four symbols for three bytes; the last
group may stand for one or two bytes, and then ends in padding. Decoding accepts only what encoding
writes: the bits that a short last group does not use have to be zero.
-/

namespace Calcsheet.Base64

/-- Why a text is no base64. -/
inductive Fault where
  /-- A byte that is no symbol, or padding where there may be none. -/
  | invalidSymbol (byte : UInt8) (offset : Nat)
  /-- A last group of fewer than two symbols. -/
  | invalidLength (length : Nat)
  /-- A last group that is not filled up to four. -/
  | invalidPadding
  /-- A last symbol with bits that stand for nothing. -/
  | invalidLastSymbol (byte : UInt8) (offset : Nat)
  deriving DecidableEq, Repr, Inhabited

/-- What is wrong, in words. -/
def Fault.message : Fault → String
  | invalidSymbol byte offset =>
    "Invalid symbol " ++ Text.decimal byte.toNat ++ ", offset " ++ Text.decimal offset ++ "."
  | invalidLength length => "Invalid input length: " ++ Text.decimal length
  | invalidPadding => "Invalid padding"
  | invalidLastSymbol byte offset =>
    "Invalid last symbol " ++ Text.decimal byte.toNat ++ ", offset " ++ Text.decimal offset ++ "."

/-- The byte that pads the last group. -/
def padding : UInt8 := 0x3D

/-- The six bits that a symbol stands for. -/
def symbolValue? (b : UInt8) : Option Nat :=
  let n := b.toNat
  if 0x41 ≤ n ∧ n ≤ 0x5A then some (n - 0x41)
  else if 0x61 ≤ n ∧ n ≤ 0x7A then some (n - 0x61 + 26)
  else if 0x30 ≤ n ∧ n ≤ 0x39 then some (n - 0x30 + 52)
  else if n = 0x2B then some 62
  else if n = 0x2F then some 63
  else none

/-- The six bits that the byte at `offset` stands for. -/
def symbol (offset : Nat) (b : UInt8) : Except Fault Nat :=
  match symbolValue? b with
  | some v => .ok v
  | none => .error (.invalidSymbol b offset)

/-- The three bytes that four symbols stand for. -/
def groupBytes (a b c d : Nat) : List UInt8 :=
  [UInt8.ofNat (a * 4 + b / 16), UInt8.ofNat (b % 16 * 16 + c / 4), UInt8.ofNat (c % 4 * 64 + d)]

/-- The symbols of a last group up to its padding, with their bytes. `index` counts the bytes of the
group before these, `start` those before the group. -/
def lastSymbols (start index : Nat) : List UInt8 → Except Fault (List (UInt8 × Nat))
  | [] => .ok []
  | b :: rest =>
    if b = padding then
      if index < 2 then .error (.invalidSymbol b (start + index))
      else if rest.all (· = padding) then .ok []
      else .error (.invalidSymbol b (start + index))
    else do
      let v ← symbol (start + index) b
      let vs ← lastSymbols start (index + 1) rest
      .ok ((b, v) :: vs)

/-- The bytes of the last group, which begins at `start`. -/
def lastBytes (start : Nat) (group : List UInt8) : Except Fault (List UInt8) := do
  let symbols ← lastSymbols start 0 group
  match symbols with
  | [] | [_] => .error (.invalidLength (start + symbols.length))
  | [(_, a), (byte, b)] =>
    if group.length ≠ 4 then .error .invalidPadding
    else if b % 16 ≠ 0 then .error (.invalidLastSymbol byte (start + 1))
    else .ok ((groupBytes a b 0 0).take 1)
  | [(_, a), (_, b), (byte, c)] =>
    if group.length ≠ 4 then .error .invalidPadding
    else if c % 4 ≠ 0 then .error (.invalidLastSymbol byte (start + 2))
    else .ok ((groupBytes a b c 0).take 2)
  | (_, a) :: (_, b) :: (_, c) :: (_, d) :: _ => .ok (groupBytes a b c d)

/-- The bytes of all groups from offset `start` on. The last group has one to four bytes. -/
def groups (start : Nat) : List UInt8 → Except Fault (List UInt8)
  | [] => .ok []
  | b₀ :: b₁ :: b₂ :: b₃ :: b₄ :: rest => do
    let v₀ ← symbol start b₀
    let v₁ ← symbol (start + 1) b₁
    let v₂ ← symbol (start + 2) b₂
    let v₃ ← symbol (start + 3) b₃
    let others ← groups (start + 4) (b₄ :: rest)
    .ok (groupBytes v₀ v₁ v₂ v₃ ++ others)
  | group => lastBytes start group

/-- The data that a text stands for. A single byte after full groups is looked at before all else. -/
def decode (bytes : List UInt8) : Except Fault (List UInt8) :=
  match bytes.getLast? with
  | some last =>
    if bytes.length % 4 = 1 ∧ last ≠ padding ∧ symbolValue? last = none then
      .error (.invalidSymbol last (bytes.length - 1))
    else groups 0 bytes
  | none => .ok []

end Calcsheet.Base64
