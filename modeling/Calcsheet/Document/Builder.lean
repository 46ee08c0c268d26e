import Calcsheet.Document.Basic

/-!
# Building a document

A builder takes the events of a document one by one: an element opens, text comes in, the
innermost open element closes. It keeps the nodes that have begun and the numbers of those still
open. Opening a second root is refused and leaves the builder as it was.
-/

namespace Calcsheet

/-- Why a sequence of events is no document. -/
inductive DocumentError where
  /-- An element opens when the root is closed already. -/
  | afterRoot (localName : String)
  /-- An element is still open at the end. -/
  | unclosed (localName : String)
  /-- There is no element at all. -/
  | noRoot
  deriving DecidableEq, Repr, Inhabited

/-- What is wrong, in words. -/
def DocumentError.message : DocumentError → String
  | afterRoot localName => "unexpected element <" ++ localName ++ "> after the root element"
  | unclosed localName => "unclosed element <" ++ localName ++ ">"
  | noRoot => "document has no root element"

/-- A document of which some events have been seen. -/
structure Builder where
  /-- The nodes that have begun, in order. -/
  nodes : Array Node := #[]
  /-- The numbers of the open nodes, innermost first. -/
  opened : List NodeId := []
  deriving Repr, Inhabited

namespace Builder

/-- Nothing seen yet. -/
def empty : Builder := {}

/-- Begins an element inside the innermost open one, or the root. -/
def openElement (b : Builder) (name : QName) (attributes : Attributes) :
    Except DocumentError (NodeId × Builder) :=
  let id := b.nodes.size
  match b.opened with
  | parent :: _ =>
    let nodes := b.nodes.modify parent fun node => { node with children := node.children.push id }
    .ok (id, { nodes := nodes.push { name, attributes, parent? := some parent },
               opened := id :: b.opened })
  | [] =>
    if b.nodes.isEmpty then
      .ok (id, { nodes := b.nodes.push { name, attributes }, opened := [id] })
    else .error (.afterRoot name.localName)

/-- Adds text to the innermost open element; outside the root it is dropped. -/
def addText (b : Builder) (text : String) : Builder :=
  match b.opened with
  | id :: _ =>
    { b with nodes := b.nodes.modify id fun node => { node with text := node.text ++ text } }
  | [] => b

/-- Ends the innermost open element, whose text loses the blanks at its ends. -/
def closeElement (b : Builder) : Option NodeId × Builder :=
  match b.opened with
  | id :: outer =>
    (some id,
      { nodes := b.nodes.modify id fun node => { node with text := Text.trim node.text },
        opened := outer })
  | [] => (none, b)

/-- An element that ends where it begins. -/
def leaf (b : Builder) (name : QName) (attributes : Attributes) :
    Except DocumentError (NodeId × Builder) := do
  let (id, opened) ← b.openElement name attributes
  .ok (id, opened.closeElement.2)

/-- The document, when every element has ended and there is one. -/
def finish (b : Builder) : Except DocumentError Document :=
  match b.opened with
  | id :: _ =>
    .error (.unclosed (match b.nodes[id]? with
      | some node => node.name.localName
      | none => ""))
  | [] => if h : 0 < b.nodes.size then .ok ⟨b.nodes, h⟩ else .error .noRoot

end Builder

end Calcsheet
