import Calcsheet.Document.Builder
import Calcsheet.Warning
import Calcsheet.Xml.Item
import Calcsheet.Xml.Scope

/-!
# Reading a worksheet

A worksheet comes as XML text. Reading takes the items of the text in order, hands elements and
text to a builder, keeps track of the prefixes in scope, and stops at the first fault. What XML
leaves open is not a fault: an undeclared prefix or an unknown reference is a warning, and a
faulty attribute is skipped.
-/

namespace Calcsheet

/-- Why a text is no worksheet. -/
inductive ReadError where
  | markup (fault : Xml.Fault)
  | document (error : DocumentError)
  deriving DecidableEq, Repr, Inhabited

/-- What is wrong, in words. -/
def ReadError.message : ReadError → String
  | markup fault => "invalid input: XML parse error: " ++ fault.message
  | document error => "invalid input: " ++ error.message

namespace Worksheet

open Xml

/-- How far reading has come. -/
structure Progress where
  builder : Builder := .empty
  /-- The names of the open tags, innermost first, each with the prefixes in scope inside it. -/
  frames : List (List Char × Scope) := []
  /-- The warnings so far, in order. -/
  warnings : List Warning := []
  deriving Repr, Inhabited

namespace Progress

/-- The prefixes in scope. -/
def scope (p : Progress) : Scope :=
  match p.frames with
  | (_, scope) :: _ => scope
  | [] => .initial

/-- Takes in text. -/
def text (p : Progress) (chars : List Char) : Progress :=
  { p with builder := p.builder.addText (String.ofList chars) }

/-- Takes in a reference. One that stands for nothing known is kept as it is written. -/
def reference (p : Progress) (name : List Char) : Progress :=
  match referenced? name with
  | some c => p.text [c]
  | none =>
    { p.text ('&' :: name ++ [';']) with
      warnings := p.warnings ++ [.unknownEntity (String.ofList name)] }

/-- Takes in an opening tag. -/
def opening (p : Progress) (tag : Tag) : Except ReadError Progress :=
  match p.scope.enter tag with
  | .error fault => .error (.markup fault)
  | .ok scope =>
    let (name, warnings) : QName × List Warning :=
      match scope.resolve tag.name with
      | .known name => (name, [])
      | .unknown label localName => (.unbound localName, [.unboundPrefix label localName])
    match p.builder.openElement name tag.attributes with
    | .error error => .error (.document error)
    | .ok (_, builder) =>
      .ok { builder, frames := (tag.name, scope) :: p.frames, warnings := p.warnings ++ warnings }

/-- Ends the innermost open element. -/
def leave (p : Progress) : Progress :=
  { p with builder := p.builder.closeElement.2, frames := p.frames.tail }

/-- Takes in a closing tag, which has to name the innermost open element. -/
def closing (p : Progress) (name : List Char) : Except ReadError Progress :=
  match p.frames with
  | [] => .error (.markup (.strayClose (String.ofList name)))
  | (expected, _) :: _ =>
    if name = expected then .ok p.leave
    else .error (.markup (.wrongClose (String.ofList expected) (String.ofList name)))

/-- Takes in one item. -/
def step (p : Progress) : Item → Except ReadError Progress
  | .text chars => .ok (p.text chars)
  | .reference name => .ok (p.reference name)
  | .opening tag => p.opening tag
  | .single tag => (p.opening tag).map leave
  | .closing name => p.closing name
  | .aside => .ok p
  | .fault fault => .error (.markup fault)

/-- Takes in items in order. -/
def steps (p : Progress) : List Item → Except ReadError Progress
  | [] => .ok p
  | item :: rest =>
    match p.step item with
    | .ok p => p.steps rest
    | .error error => .error error

/-- The document, once the text has come to its end. -/
def finish (p : Progress) : Except ReadError (Converted Document) :=
  match p.builder.finish with
  | .ok document => .ok { value := document, warnings := p.warnings }
  | .error error => .error (.document error)

end Progress

/-- Reads the text of a worksheet. -/
def read (text : String) : Except ReadError (Converted Document) :=
  match Progress.steps {} (Xml.items text) with
  | .ok p => p.finish
  | .error error => .error error

end Worksheet

end Calcsheet
