/-!
# Numbers, truth values and characters written as text

A numeral is a run of ASCII digits with at most one sign in front. A reader takes the whole text
or nothing: a stray character, an empty run of digits or a value out of range gives `none`.
-/

namespace Calcsheet.Text

/-- The value of an ASCII digit. -/
def digitValue? (c : Char) : Option Nat :=
  if '0' ≤ c ∧ c ≤ '9' then some (c.toNat - '0'.toNat) else none

/-- The value of a run of decimal digits written after the digits of `acc`. -/
def digitsValue? (acc : Nat) : List Char → Option Nat
  | [] => some acc
  | c :: cs =>
    match digitValue? c with
    | some d => digitsValue? (10 * acc + d) cs
    | none => none

/-- The value of a run of at least one decimal digit. -/
def digits? : List Char → Option Nat
  | [] => none
  | c :: cs => digitsValue? 0 (c :: cs)

/-- A number below `2 ^ bits`, with an optional plus sign. -/
def unsigned? (bits : Nat) (s : String) : Option Nat :=
  let digits := match s.toList with
    | '+' :: cs => cs
    | cs => cs
  (digits? digits).filter (· < Nat.pow 2 bits)

/-- A number that fits in a signed word of `bits` bits, with an optional sign. -/
def signed? (bits : Nat) (s : String) : Option Int :=
  match s.toList with
  | '-' :: cs => ((digits? cs).filter (· ≤ Nat.pow 2 (bits - 1))).map fun n => -(n : Int)
  | '+' :: cs => ((digits? cs).filter (· < Nat.pow 2 (bits - 1))).map fun n => (n : Int)
  | cs => ((digits? cs).filter (· < Nat.pow 2 (bits - 1))).map fun n => (n : Int)

/-- Exactly `true` or `false`. -/
def truth? (s : String) : Option Bool :=
  if s = "true" then some true else if s = "false" then some false else none

/-- A text of exactly one character. -/
def character? (s : String) : Option Char :=
  match s.toList with
  | [c] => some c
  | _ => none

/-- The decimal digits of a number. -/
def decimal (n : Nat) : String :=
  String.ofList (Nat.toDigits 10 n)

end Calcsheet.Text
