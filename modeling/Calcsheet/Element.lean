import Calcsheet.Attributes
import Calcsheet.Kind
import Calcsheet.Text.Basic

/-!
# Elements

An element has a name, attributes, the text that stands directly inside it, and its child
elements in document order. All that is generated from a worksheet is generated from this tree.
-/

namespace Calcsheet

/-- An element with everything below it. -/
inductive Element where
  | mk (name : QName) (attributes : Attributes) (text : String) (children : List Element)
  deriving Repr, Inhabited

namespace Element

/-- The qualified name. -/
def name : Element → QName
  | mk name _ _ _ => name

/-- The attributes. -/
def attributes : Element → Attributes
  | mk _ attributes _ _ => attributes

/-- The text directly inside the element. -/
def text : Element → String
  | mk _ _ text _ => text

/-- The child elements in document order. -/
def children : Element → List Element
  | mk _ _ _ children => children

/-- The local part of the name. -/
def localName (e : Element) : String :=
  e.name.localName

/-- What the element is to the code generator. -/
def kind (e : Element) : Kind :=
  Kind.of e.name

/-- A name followed by its children's names: `define(id, real)`, or just `id` with no children. -/
def shapeOf (name : String) (children : List String) : String :=
  if children.isEmpty then name else name ++ "(" ++ Text.joinWith ", " children ++ ")"

/-- The local name followed by those of the children. -/
def shape (e : Element) : String :=
  shapeOf e.localName (e.children.map localName)

mutual

/-- The elements below `e`, in document order. -/
def descendants : Element → List Element
  | mk _ _ _ children => subtrees children

/-- The elements of a list, each followed by those below it. -/
def subtrees : List Element → List Element
  | [] => []
  | e :: rest => e :: (descendants e ++ subtrees rest)

end

mutual

/-- The number of elements in the tree. -/
def size : Element → Nat
  | mk _ _ _ children => 1 + sizeAll children

/-- The number of elements in the trees of a list. -/
def sizeAll : List Element → Nat
  | [] => 0
  | e :: rest => size e + sizeAll rest

end

end Element

end Calcsheet
