import Calcsheet.Gzip.Bits

/-!
# Prefix codes

A code assigns to each symbol a run of bits, none of which begins another. It is given by the length
of each run alone: shorter runs come first, and those of one length in the order of their symbols.
The code is kept as a binary tree in which reading walks down.
-/

namespace Calcsheet.Gzip

/-- A code as a tree. -/
inductive CodeTree where
  /-- No symbol begins with these bits. -/
  | vacant
  | leaf (symbol : Nat)
  | fork (zero one : CodeTree)
  deriving DecidableEq, Repr, Inhabited

namespace CodeTree

/-- Reads one symbol. -/
def read : CodeTree → BitReader Nat
  | vacant, _ => .error .corrupt
  | leaf symbol, bits => .ok (symbol, bits)
  | fork _ _, [] => .error .incomplete
  | fork zero one, b :: bits => if b then one.read bits else zero.read bits

/-- The tree with a symbol at the end of a run of bits. -/
def insert (symbol : Nat) : List Bool → CodeTree → CodeTree
  | [], _ => leaf symbol
  | b :: bits, tree =>
    let (zero, one) := match tree with
      | fork zero one => (zero, one)
      | _ => (vacant, vacant)
    if b then fork zero (insert symbol bits one) else fork (insert symbol bits zero) one

end CodeTree

/-- The greatest length of a run. -/
def maxCodeLength : Nat := 15

/-- How many symbols have a run of this length. -/
def countLength (lengths : List Nat) (length : Nat) : Nat :=
  lengths.count length

/-- The number of runs of length `maxCodeLength` that are left free by the runs up to a length, or
`none` if there are more runs than fit. `free` runs of the length before are free. -/
def freeRuns? (lengths : List Nat) : Nat → Nat → Option Nat
  | 0, free => some free
  | steps + 1, free =>
    let count := countLength lengths (maxCodeLength - steps)
    if count ≤ 2 * free then freeRuns? lengths steps (2 * free - count) else none

/-- The lengths give a code: no more runs than fit, and none left free, unless `lenient` and there
are no runs longer than one bit. -/
def validLengths (lenient : Bool) (lengths : List Nat) : Bool :=
  match freeRuns? lengths maxCodeLength 1 with
  | none => false
  | some free => free = 0 || (lenient && lengths.all (· ≤ 1))

/-- The first run of each length, as a number, from length `length` on: it follows the last run of
the length before. -/
def firstRuns (lengths : List Nat) (length first : Nat) : Nat → List Nat
  | 0 => []
  | steps + 1 =>
    first :: firstRuns lengths (length + 1) ((first + countLength lengths length) * 2) steps

/-- The run of bits of a number, highest first. -/
def runOf (length n : Nat) : List Bool :=
  (bitsOfNat length n).reverse

/-- Puts the symbols from `symbol` on into the tree. `next` holds the next free run of each length,
from length 1 on. -/
def insertAll (symbol : Nat) (next : List Nat) (tree : CodeTree) : List Nat → CodeTree
  | [] => tree
  | 0 :: rest => insertAll (symbol + 1) next tree rest
  | (length + 1) :: rest =>
    let run := (next[length]?).getD 0
    insertAll (symbol + 1) (next.set length (run + 1))
      (tree.insert symbol (runOf (length + 1) run)) rest

/-- The code given by the lengths of its runs; length 0 means that a symbol is not used. -/
def codeOfLengths (lengths : List Nat) : CodeTree :=
  insertAll 0 (firstRuns lengths 1 0 maxCodeLength) (.fork .vacant .vacant) lengths

end Calcsheet.Gzip
