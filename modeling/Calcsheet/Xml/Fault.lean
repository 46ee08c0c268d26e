import Calcsheet.Text.Basic

/-!
# Faults in XML text

Every way in which a text can fail to be XML, with the words for it.
-/

namespace Calcsheet.Xml

/-- The namespace that the prefix `xml` stands for. -/
def xmlUri : String := "http://www.w3.org/XML/1998/namespace"

/-- The namespace that the prefix `xmlns` stands for. -/
def xmlnsUri : String := "http://www.w3.org/2000/xmlns/"

/-- What is wrong with a text. -/
inductive Fault where
  /-- After `<!` comes nothing that begins a piece of markup. -/
  | unknownMarkup
  | unclosedInstruction
  | unclosedDeclaration
  | unclosedComment
  | unclosedDoctype
  | unclosedCData
  | unclosedTag
  /-- A tag does not end because a quote in it is not closed. -/
  | unclosedValue (quote : Char)
  /-- A document type declaration without a name. -/
  | namelessDoctype
  /-- A closing tag when nothing is open. -/
  | strayClose (found : String)
  /-- A closing tag for another element than the innermost open one. -/
  | wrongClose (expected found : String)
  | unclosedReference
  /-- The prefix `xml` is bound to another namespace than its own. -/
  | rebindsXml (uri : String)
  /-- The prefix `xmlns` is bound. -/
  | rebindsXmlns (uri : String)
  /-- Another prefix is bound to the namespace of `xml`. -/
  | takesXmlUri (label : String)
  /-- Another prefix is bound to the namespace of `xmlns`. -/
  | takesXmlnsUri (label : String)
  deriving DecidableEq, Repr, Inhabited

/-- A byte in a message: printable ASCII as it is, a quote after a backslash, anything else by its
value in hexadecimal. -/
def shownByte (b : UInt8) : String :=
  if b = 0x22 then "\\\""
  else if 0x20 ≤ b ∧ b ≤ 0x7E then String.singleton (Char.ofNat b.toNat)
  else "0x" ++ (String.ofList (Nat.toDigits 16 b.toNat)).map Char.toUpper

/-- A name or URI in a message, byte by byte, in double quotes inside single quotes. -/
def shownBytes (s : String) : String :=
  "'\"" ++ Text.concat (s.toUTF8.data.toList.map shownByte) ++ "\"'"

namespace Fault

/-- Markup that the text ends before. -/
def unclosed (what mark : String) : String :=
  "syntax error: " ++ what ++ " not closed: `" ++ mark ++ "` not found before end of input"

/-- A prefix bound where it may not be. -/
def binding (label uri : String) : String :=
  "the namespace prefix " ++ label ++ " cannot be bound to " ++ uri

/-- What is wrong, in words. -/
def message : Fault → String
  | unknownMarkup => "syntax error: unknown or missed symbol in markup"
  | unclosedInstruction => unclosed "processing instruction" "?>"
  | unclosedDeclaration => unclosed "XML declaration" "?>"
  | unclosedComment => unclosed "comment" "-->"
  | unclosedDoctype => unclosed "DOCTYPE" ">"
  | unclosedCData => unclosed "CDATA" "]]>"
  | unclosedTag => unclosed "tag" ">"
  | unclosedValue quote => unclosed "attribute value" (String.singleton quote)
  | namelessDoctype =>
    "ill-formed document: `<!DOCTYPE>` declaration does not contain a name of a document type"
  | strayClose found =>
    "ill-formed document: close tag `</" ++ found ++ ">` does not match any open tag"
  | wrongClose expected found =>
    "ill-formed document: expected `</" ++ expected ++ ">`, but `</" ++ found ++ ">` was found"
  | unclosedReference =>
    "ill-formed document: entity or character reference not closed: " ++
      "`;` not found before end of input"
  | rebindsXml uri => binding "'xml'" (shownBytes uri)
  | rebindsXmlns uri => binding "'xmlns'" (shownBytes uri)
  | takesXmlUri label => binding (shownBytes label) ("'" ++ xmlUri ++ "'")
  | takesXmlnsUri label => binding (shownBytes label) ("'" ++ xmlnsUri ++ "'")

end Fault

end Calcsheet.Xml
