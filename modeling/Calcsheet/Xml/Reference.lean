import Calcsheet.Text.Numeral

/-!
# Character and entity references

A reference `&name;` stands for one character: one of the five predefined entities, or a character
given by its code point in decimal or, after `#x`, in hexadecimal.
-/

namespace Calcsheet.Xml

/-- The value of a hexadecimal digit of either case. -/
def hexValue? (c : Char) : Option Nat :=
  if '0' ≤ c ∧ c ≤ '9' then some (c.toNat - '0'.toNat)
  else if 'a' ≤ c ∧ c ≤ 'f' then some (c.toNat - 'a'.toNat + 10)
  else if 'A' ≤ c ∧ c ≤ 'F' then some (c.toNat - 'A'.toNat + 10)
  else none

/-- The value of a run of hexadecimal digits written after the digits of `acc`. -/
def hexDigitsValue? (acc : Nat) : List Char → Option Nat
  | [] => some acc
  | c :: cs =>
    match hexValue? c with
    | some d => hexDigitsValue? (16 * acc + d) cs
    | none => none

/-- The value of a run of at least one hexadecimal digit. -/
def hexDigits? : List Char → Option Nat
  | [] => none
  | c :: cs => hexDigitsValue? 0 (c :: cs)

/-- The character with a code point, which is not 0 and not half of a surrogate pair. -/
def charOfCode? (n : Nat) : Option Char :=
  if h : n.isValidChar then
    if n = 0 then none else some (Char.ofNatAux n h)
  else none

/-- The character that `&name;` stands for. -/
def referenced? (name : List Char) : Option Char :=
  match name with
  | '#' :: 'x' :: digits => (hexDigits? digits).bind charOfCode?
  | '#' :: digits => (Text.digits? digits).bind charOfCode?
  | _ =>
    [("lt", '<'), ("gt", '>'), ("amp", '&'), ("apos", '\''), ("quot", '"')].lookup
      (String.ofList name)

/-- The text with its references resolved; `none` if one of them is not closed or stands for
nothing. The first argument holds the name read so far, last character first, of a reference that
has begun. -/
def resolve? : Option (List Char) → List Char → Option (List Char)
  | none, [] => some []
  | some _, [] => none
  | none, c :: s => if c = '&' then resolve? (some []) s else (resolve? none s).map (c :: ·)
  | some name, c :: s =>
    if c = ';' then
      match referenced? name.reverse with
      | some r => (resolve? none s).map (r :: ·)
      | none => none
    else if c = '&' then none
    else resolve? (some (c :: name)) s

/-- The text with its references resolved, or the text as it is if one of them is bad. -/
def unescape (s : List Char) : List Char :=
  (resolve? none s).getD s

end Calcsheet.Xml
