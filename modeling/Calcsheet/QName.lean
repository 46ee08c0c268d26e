/-!
# Qualified names

An element's name is a local part, bound or not to a namespace that is given by its URI. The
empty URI is a namespace like any other.
-/

namespace Calcsheet

/-- A name and the namespace it is bound to. -/
structure QName where
  /-- The URI of the namespace, if the name is bound to one. -/
  uri : Option String
  /-- The part of the name that is not a namespace. -/
  localName : String
  deriving DecidableEq, Repr, Inhabited

namespace QName

/-- A name bound to a namespace. -/
def bound (uri localName : String) : QName :=
  { uri := some uri, localName }

/-- A name in no namespace. -/
def unbound (localName : String) : QName :=
  { uri := none, localName }

/-- The name is `localName` in the namespace `uri`. -/
def isNamed (name : QName) (uri localName : String) : Bool :=
  name = bound uri localName

/-- The local part, after its namespace in braces. -/
def render (name : QName) : String :=
  match name.uri with
  | some uri => "\x7b" ++ uri ++ "\x7d" ++ name.localName
  | none => name.localName

end QName

end Calcsheet
