import Calcsheet.QName
import Calcsheet.Xml.Tag

/-!
# Namespace prefixes in scope

An element's declarations hold for the element itself and for all it contains. The last
declaration of a prefix wins; the empty prefix is the default namespace.
-/

namespace Calcsheet.Xml

/-- Prefixes with their URIs, the latest declaration first. -/
abbrev Scope := List (List Char × String)

/-- What a name in a tag stands for. -/
inductive Resolution where
  | known (name : QName)
  /-- The prefix is not declared, or declared to stand for nothing. -/
  | unknown (label localName : String)
  deriving DecidableEq, Repr, Inhabited

namespace Scope

/-- The prefixes that need no declaration. -/
def initial : Scope :=
  [("xml".toList, xmlUri), ("xmlns".toList, xmlnsUri)]

/-- Takes in one declaration, given by its key and value. Attributes that declare nothing change
nothing. -/
def declare (scope : Scope) (a : RawAttribute) : Except Fault Scope :=
  let uri := String.ofList a.value
  if a.key = "xmlns".toList then .ok (([], uri) :: scope)
  else
    match dropMark? "xmlns:".toList a.key with
    | none => .ok scope
    | some label =>
      if label = "xml".toList then
        if uri = xmlUri then .ok scope else .error (.rebindsXml uri)
      else if label = "xmlns".toList then .error (.rebindsXmlns uri)
      else if uri = xmlUri then .error (.takesXmlUri (String.ofList label))
      else if uri = xmlnsUri then .error (.takesXmlnsUri (String.ofList label))
      else .ok ((label, uri) :: scope)

/-- Takes in declarations in their order. -/
def declareAll (scope : Scope) : List RawAttribute → Except Fault Scope
  | [] => .ok scope
  | a :: rest =>
    match scope.declare a with
    | .ok scope => declareAll scope rest
    | .error fault => .error fault

/-- The scope inside an element that begins with `tag`. -/
def enter (scope : Scope) (tag : Tag) : Except Fault Scope :=
  scope.declareAll tag.written

/-- What an element's name stands for. A name without a prefix is in the default namespace. -/
def resolve (scope : Scope) (name : List Char) : Resolution :=
  let localName := String.ofList (localPart name)
  match prefixPart? name with
  | none =>
    match scope.lookup [] with
    | some uri => if uri = "" then .known (.unbound localName) else .known (.bound uri localName)
    | none => .known (.unbound localName)
  | some label =>
    let declared := if label = [] then none else scope.lookup label
    match declared with
    | some uri =>
      if uri = "" then .unknown (String.ofList label) localName else .known (.bound uri localName)
    | none => .unknown (String.ofList label) localName

end Scope

end Calcsheet.Xml
