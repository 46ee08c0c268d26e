import Calcsheet.Element

/-!
# Ways to write a tree as XML

A tree of elements with text between them can be written in many ways, and `DocumentWritten` says in
which: prefixes are free, an element without content may be one tag or two, a character may stand
for itself, be referred to by name or number, or be part of a CDATA section, and comments may stand
between the pieces of content. Nothing here looks at how such a text is read.
-/

namespace Calcsheet.Xml

/-! ## Content -/

/-- Text, or an element with content of its own. -/
inductive Content where
  | text (s : String)
  | element (name : QName) (attributes : List (String × String)) (content : List Content)
  deriving Repr, Inhabited

namespace Content

/-- The text that stands directly in the content. -/
def textOf : List Content → String
  | [] => ""
  | .text s :: rest => s ++ textOf rest
  | .element .. :: rest => textOf rest

mutual

/-- The elements that stand directly in the content, with all that is below them. The text of an
element is all text directly inside it, without the blanks at its ends. -/
def elements : List Content → List Element
  | [] => []
  | piece :: rest => piece.element?.toList ++ elements rest

/-- The element that a piece of content is. -/
def element? : Content → Option Element
  | .text _ => none
  | .element name attributes content =>
    some (.mk name ⟨attributes⟩ (Text.trim (textOf content)) (elements content))

end

end Content

/-! ## Names -/

/-- A word of ASCII letters and digits that begins with a letter. -/
def isName : List Char → Bool
  | [] => false
  | c :: cs => c.isAlpha && cs.all Char.isAlphanum

/-- A name that has no meaning of its own as a prefix or a key. -/
def isFreeName (s : List Char) : Bool :=
  isName s && s != "xml".toList && s != "xmlns".toList

/-- Prefixes with the vocabularies that they are declared for. -/
abbrev Bindings := List (List Char × Vocabulary)

/-- How the name of an element is written: after a prefix for its vocabulary, or bare if it is in no
namespace. -/
inductive NameWritten (bindings : Bindings) : QName → List Char → Prop
  | bound {label vocabulary localName} (declared : (label, vocabulary) ∈ bindings)
      (name : isName localName.toList = true) :
      NameWritten bindings (.bound vocabulary.uri localName) (label ++ ':' :: localName.toList)
  | unbound {localName} (name : isName localName.toList = true) :
      NameWritten bindings (.unbound localName) localName.toList

/-! ## Characters -/

/-- The entities that need no declaration. -/
def entities : List (Char × String) :=
  [('&', "amp"), ('<', "lt"), ('>', "gt"), ('"', "quot"), ('\'', "apos")]

/-- A hexadecimal digit, in upper case or not. -/
def hexDigit (upper : Bool) (digit : Fin 16) : Char :=
  if upper then (Nat.digitChar digit.val).toUpper else Nat.digitChar digit.val

/-- What stands between `&` and `;` to refer to a character. -/
inductive Reference : Char → List Char → Prop
  | entity {c name} (mem : (c, name) ∈ entities) : Reference c name.toList
  | decimal {c} (digits : List (Fin 10)) (notNull : c.toNat ≠ 0)
      (value : digits.foldl (fun n d => 10 * n + d.val) 0 = c.toNat) :
      Reference c ('#' :: digits.map fun d => Nat.digitChar d.val)
  | hexadecimal {c} (digits : List (Bool × Fin 16)) (notNull : c.toNat ≠ 0)
      (value : digits.foldl (fun n d => 16 * n + d.2.val) 0 = c.toNat) :
      Reference c ('#' :: 'x' :: digits.map fun d => hexDigit d.1 d.2)

/-- How a character is written where some characters cannot stand for themselves. -/
inductive CharWritten (special : List Char) : Char → List Char → Prop
  | raw {c} (plain : c ∉ special) : CharWritten special c [c]
  | reference {c name} (refers : Reference c name) : CharWritten special c ('&' :: name ++ [';'])

/-! ## Text and tags -/

/-- How text is written between tags. -/
inductive TextWritten : List Char → List Char → Prop
  | nil : TextWritten [] []
  | char {c w cs s} (first : CharWritten ['<', '&'] c w) (rest : TextWritten cs s) :
      TextWritten (c :: cs) (w ++ s)
  | cdata {chars cs s} (noEnd : ¬ "]]>".toList <:+: chars) (rest : TextWritten cs s) :
      TextWritten (chars ++ cs) ("<![CDATA[".toList ++ chars ++ "]]>".toList ++ s)

/-- How the value of an attribute is written between quotes. -/
inductive ValueWritten : List Char → List Char → Prop
  | nil : ValueWritten [] []
  | char {c w cs s} (first : CharWritten ['&', '<', '>', '"', '\''] c w)
      (rest : ValueWritten cs s) : ValueWritten (c :: cs) (w ++ s)

/-- How the declarations and attributes in a tag are written, in any order among each other. -/
inductive TagWritten : Bindings → List (String × String) → List Char → Prop
  | nil : TagWritten [] [] []
  | declaration {label vocabulary bindings attributes q s} (free : isFreeName label = true)
      (quote : q ∈ ['"', '\'']) (rest : TagWritten bindings attributes s) :
      TagWritten ((label, vocabulary) :: bindings) attributes
        (" xmlns:".toList ++ label ++ '=' :: q :: vocabulary.uri.toList ++ q :: s)
  | entry {key value bindings attributes q w s} (free : isFreeName key.toList = true)
      (quote : q ∈ ['"', '\'']) (written : ValueWritten value.toList w)
      (rest : TagWritten bindings attributes s) :
      TagWritten bindings ((key, value) :: attributes)
        (' ' :: key.toList ++ '=' :: q :: w ++ q :: s)

/-- How a tag begins an element: its name, then declarations and attributes with different keys. -/
structure HeadWritten (bindings declared : Bindings) (name : QName)
    (attributes : List (String × String)) (label tag : List Char) : Prop where
  name : NameWritten bindings name label
  distinct : (attributes.map Prod.fst).Nodup
  tag : TagWritten declared attributes tag

/-! ## Elements -/

/-- How content is written under the prefixes of a document. -/
inductive ContentWritten (bindings : Bindings) : List Content → List Char → Prop
  | nil : ContentWritten bindings [] []
  | comment {body content s} (noEnd : ¬ "--".toList <:+: body)
      (rest : ContentWritten bindings content s) :
      ContentWritten bindings content ("<!--".toList ++ body ++ "-->".toList ++ s)
  | text {text w content s} (written : TextWritten text.toList w)
      (rest : ContentWritten bindings content s) :
      ContentWritten bindings (.text text :: content) (w ++ s)
  | single {name attributes label tag content s}
      (head : HeadWritten bindings [] name attributes label tag)
      (rest : ContentWritten bindings content s) :
      ContentWritten bindings (.element name attributes [] :: content)
        ('<' :: label ++ tag ++ "/>".toList ++ s)
  | paired {name attributes label tag inner w content s}
      (head : HeadWritten bindings [] name attributes label tag)
      (inside : ContentWritten bindings inner w) (rest : ContentWritten bindings content s) :
      ContentWritten bindings (.element name attributes inner :: content)
        ('<' :: label ++ tag ++ '>' :: w ++ "</".toList ++ label ++ '>' :: s)

/-- How an element is written as a document. Its own tag declares all prefixes. -/
inductive DocumentWritten : QName → List (String × String) → List Content → List Char → Prop
  | single {bindings name attributes label tag} (distinct : (bindings.map Prod.fst).Nodup)
      (head : HeadWritten bindings bindings name attributes label tag) :
      DocumentWritten name attributes [] ('<' :: label ++ tag ++ "/>".toList)
  | paired {bindings name attributes label tag content w} (distinct : (bindings.map Prod.fst).Nodup)
      (head : HeadWritten bindings bindings name attributes label tag)
      (inside : ContentWritten bindings content w) :
      DocumentWritten name attributes content
        ('<' :: label ++ tag ++ '>' :: w ++ "</".toList ++ label ++ ['>'])

end Calcsheet.Xml
