import Calcsheet.Base64
import Calcsheet.Element
import Calcsheet.Gzip.Member

/-!
# Attachments

The images in a worksheet stand in a section below its root, one element for each, as base64 of
the data or of its compressed form. A section is decoded as a whole: one bad item and there are no
attachments.
-/

namespace Calcsheet

/-- An image of a worksheet. -/
structure Attachment where
  /-- The worksheet's name for the item. -/
  itemId : String
  data : List UInt8
  deriving DecidableEq, Repr, Inhabited

/-- Why the attachments of a worksheet cannot be decoded. -/
inductive AttachmentError where
  | noItemId (localName : String)
  | base64 (itemId : String) (fault : Base64.Fault)
  | gzip (itemId : String) (fault : Gzip.Fault)
  deriving DecidableEq, Repr, Inhabited

/-- What is wrong, in words. -/
def AttachmentError.message : AttachmentError → String
  | noItemId localName =>
    "invalid input: binary item <" ++ localName ++ "> has no item-id attribute"
  | base64 itemId fault =>
    "invalid input: binary item " ++ itemId ++ ": base64 error: " ++ fault.message
  | gzip itemId fault =>
    "invalid input: binary item " ++ itemId ++ ": gzip error: " ++ fault.message

namespace Attachment

/-- The type of the data. Worksheets do not record it, so all are taken for the same. -/
def mimeType : String := "image/png"

/-- The name of the file that holds the attachment. -/
def fileName (a : Attachment) : String :=
  "item" ++ a.itemId ++ ".png"

/-- The data that an item's text stands for, which is compressed or not. -/
def decode (itemId : String) (compressed : Bool) (text : String) :
    Except AttachmentError (List UInt8) :=
  match Base64.decode (Text.withoutBlanks text).toUTF8.data.toList with
  | .error fault => .error (.base64 itemId fault)
  | .ok data =>
    if compressed then
      match Gzip.decompress data with
      | .ok data => .ok data
      | .error fault => .error (.gzip itemId fault)
    else .ok data

/-- The attachment of an item. Any content encoding means that it is compressed. -/
def ofItem (item : Element) : Except AttachmentError Attachment :=
  match item.attributes.get? "item-id" with
  | none => .error (.noItemId item.localName)
  | some itemId => do
    let compressed := (item.attributes.get? "content-encoding").isSome
    .ok { itemId, data := ← decode itemId compressed item.text }

/-- The attachments of items in a row. -/
def ofItems : List Element → Except AttachmentError (List Attachment)
  | [] => .ok []
  | item :: rest => do
    let first ← ofItem item
    let others ← ofItems rest
    .ok (first :: others)

/-- The attachments of a worksheet: the items of the first section below its root. -/
def collect (root : Element) : Except AttachmentError (List Attachment) :=
  match root.children.find? fun e => e.kind = .binaryContent with
  | some content => ofItems content.children
  | none => .ok []

end Attachment

end Calcsheet
