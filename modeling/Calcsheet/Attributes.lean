import Calcsheet.Text.Basic
import Calcsheet.Text.Numeral

/-!
# Attributes of an element

Attributes are a map from keys to values that keeps the order in which the keys first came in.
Setting a key that is there replaces its value where it stands.
-/

namespace Calcsheet

/-- The attributes of one element, in the order of their keys' first appearance. -/
structure Attributes where
  /-- Keys with their values. -/
  entries : List (String × String) := []
  deriving DecidableEq, Repr, Inhabited

namespace Attributes

/-- No attributes. -/
def empty : Attributes := {}

/-- Replaces the value of `key` where it stands, or adds the pair at the end. -/
def setEntry (key value : String) : List (String × String) → List (String × String)
  | [] => [(key, value)]
  | (k, v) :: rest => if k = key then (key, value) :: rest else (k, v) :: setEntry key value rest

/-- The attributes with `key` bound to `value`. -/
def set (as : Attributes) (key value : String) : Attributes :=
  { entries := setEntry key value as.entries }

/-- The value bound to `key`. -/
def get? (as : Attributes) (key : String) : Option String :=
  as.entries.lookup key

/-- The pairs set one after another, from no attributes. -/
def ofList (pairs : List (String × String)) : Attributes :=
  pairs.foldl (fun as (key, value) => as.set key value) empty

/-- The keys in order. -/
def keys (as : Attributes) : List String :=
  as.entries.map Prod.fst

/-- The number of keys. -/
def size (as : Attributes) : Nat :=
  as.entries.length

/-- There is no attribute. -/
def isEmpty (as : Attributes) : Bool :=
  as.entries.isEmpty

/-- The value of `key` without blanks at its ends, read by `reader`. -/
def read? {α : Type} (as : Attributes) (reader : String → Option α) (key : String) : Option α :=
  (as.get? key).bind fun value => reader (Text.trim value)

/-- A count: a number below `2 ^ 64`. -/
def count? (as : Attributes) (key : String) : Option Nat :=
  as.read? (Text.unsigned? 64) key

end Attributes

end Calcsheet
