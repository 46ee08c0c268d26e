/-!
# Texts

Sets of characters, blanks at the ends of a text, joining texts, and names in increasing order.

A property of characters is written as a list of closed ranges of code points. The blanks are the
characters of Unicode's `White_Space` property. Text found inside an element and numbers found in
attributes are read with the blanks at both ends taken off; encoded data is read with all of its
blanks taken out.

`joinWith sep` writes a separator between the texts of a list, and nothing around them. `insertName`
puts a name into a strictly increasing list unless it is there already, so a list built from it
alone is strictly increasing and holds every name once. `sortOn` orders a list by a text drawn from
each member and keeps the members that tie in their order.
-/

namespace Calcsheet.Text

/-! ## Characters -/

/-- The code point of `c` lies in one of the closed ranges. -/
def inRanges (ranges : List (Nat × Nat)) (c : Char) : Bool :=
  ranges.any fun (low, high) => low ≤ c.toNat && c.toNat ≤ high

/-- Unicode's `White_Space` property. -/
def isBlank (c : Char) : Bool :=
  let n := c.toNat
  (0x9 ≤ n && n ≤ 0xD) || n == 0x20 || n == 0x85 || n == 0xA0 || n == 0x1680 ||
    (0x2000 ≤ n && n ≤ 0x200A) || n == 0x2028 || n == 0x2029 || n == 0x202F || n == 0x205F ||
    n == 0x3000

/-- The characters without the blanks at the end. -/
def trimEnd (cs : List Char) : List Char :=
  (cs.reverse.dropWhile isBlank).reverse

/-- The text without the blanks at either end. -/
def trim (s : String) : String :=
  String.ofList (trimEnd (s.toList.dropWhile isBlank))

/-- The text without any of its blanks. -/
def withoutBlanks (s : String) : String :=
  String.ofList (s.toList.filter fun c => !isBlank c)

/-! ## Joining -/

/-- The texts in order with `sep` between neighbours. -/
def joinWith (sep : String) : List String → String
  | [] => ""
  | [s] => s
  | s :: rest => s ++ sep ++ joinWith sep rest

theorem joinWith_cons {sep : String} (s : String) {rest : List String} (h : rest ≠ []) :
    joinWith sep (s :: rest) = s ++ sep ++ joinWith sep rest := by
  rw [joinWith]
  exact h

/-- The texts in order with nothing between them. -/
def concat : List String → String
  | [] => ""
  | s :: rest => s ++ concat rest

/-- A run of `n` spaces. -/
def spaces (n : Nat) : String :=
  String.ofList (List.replicate n ' ')

/-- The text, followed by as many spaces as it needs to be `width` characters long. -/
def padded (width : Nat) (s : String) : String :=
  s ++ spaces (width - s.length)

/-! ## Sorting -/

/-- Puts `name` in its place in a strictly increasing list. -/
def insertName (name : String) : List String → List String
  | [] => [name]
  | other :: rest =>
    if name < other then name :: other :: rest
    else if name = other then other :: rest
    else other :: insertName name rest

/-- The distinct names of the list in increasing order. -/
def sortedNames : List String → List String
  | [] => []
  | name :: rest => insertName name (sortedNames rest)

variable {α : Type}

/-- Puts `a` before the first member with a key that is not smaller. -/
def insertOn (key : α → String) (a : α) : List α → List α
  | [] => [a]
  | b :: rest => if key b < key a then b :: insertOn key a rest else a :: b :: rest

/-- The members of the list in the order of their keys. -/
def sortOn (key : α → String) : List α → List α
  | [] => []
  | a :: rest => insertOn key a (sortOn key rest)

end Calcsheet.Text
