import Calcsheet.Text.Basic

/-!
# Paths

A path is a text. Its components are found between slashes; empty components and dots count for
nothing, except for the slash or dot that a path may begin with. Two paths are compared by their
components, but joining, taking the parent and taking off a root keep the text as far as it goes.
-/

namespace Calcsheet

/-- A path of a file or folder. -/
structure Path where
  text : String
  deriving DecidableEq, Repr, Inhabited

namespace Path

/-- One step of a path. -/
inductive Component where
  /-- The slash that an absolute path begins with. -/
  | top
  /-- The dot that a path begins with. -/
  | here
  /-- Two dots: the folder above. -/
  | up
  | named (name : String)
  deriving DecidableEq, Repr, Inhabited

/-- The texts between the slashes. -/
def splitSlash : List Char → List (List Char)
  | [] => [[]]
  | c :: s =>
    if c = '/' then [] :: splitSlash s
    else
      match splitSlash s with
      | piece :: rest => (c :: piece) :: rest
      | [] => [[c]]

/-- A path taken apart: the slash or dot that it begins with, and the texts between the slashes of
what follows. -/
structure Pieces where
  start? : Option Component
  pieces : List String
  deriving DecidableEq, Repr, Inhabited

/-- The texts between the slashes, as strings. -/
def piecesOf (s : List Char) : List String :=
  (splitSlash s).map String.ofList

/-- Takes a path apart. -/
def split (p : Path) : Pieces :=
  match p.text.toList with
  | '/' :: s => ⟨some .top, piecesOf s⟩
  | ['.'] => ⟨some .here, piecesOf []⟩
  | '.' :: '/' :: s => ⟨some .here, piecesOf ('/' :: s)⟩
  | s => ⟨none, piecesOf s⟩

/-- A piece that counts for nothing. -/
def isVoid (piece : String) : Bool :=
  piece = "" || piece = "."

/-- The component that a piece stands for. -/
def Component.ofPiece (piece : String) : Component :=
  if piece = ".." then .up else .named piece

/-- The pieces without those that count for nothing at the end. -/
def trimPieces (pieces : List String) : List String :=
  (pieces.reverse.dropWhile isVoid).reverse

/-- The path made of a start and pieces. -/
def ofPieces (start? : Option Component) (pieces : List String) : Path :=
  let start := match start? with
    | some .top => "/"
    | some .here => "."
    | _ => ""
  ⟨start ++ Text.joinWith "/" pieces⟩

/-- The components in order. -/
def components (p : Path) : List Component :=
  let ⟨start?, pieces⟩ := p.split
  start?.toList ++ (pieces.filter fun piece => !isVoid piece).map Component.ofPiece

/-- The paths have the same components. -/
def sameAs (p q : Path) : Bool :=
  p.components = q.components

/-- The path begins at the top. -/
def isAbsolute (p : Path) : Bool :=
  p.text.toList.head? = some '/'

/-- The path `q` seen from `p`. An absolute path stays what it is. -/
def join (p q : Path) : Path :=
  if q.isAbsolute then q
  else if p.text = "" ∨ p.text.toList.getLast? = some '/' then ⟨p.text ++ q.text⟩
  else ⟨p.text ++ "/" ++ q.text⟩

/-- The path without its last component, if it has one that can be taken off. -/
def parent? (p : Path) : Option Path :=
  let ⟨start?, pieces⟩ := p.split
  match pieces.reverse.dropWhile isVoid with
  | _ :: before => some (ofPieces start? (before.dropWhile isVoid).reverse)
  | [] => if start? = some .here then some ⟨""⟩ else none

/-- Takes off a number of components, and then the pieces that count for nothing. -/
def dropComponents : Nat → List String → List String
  | 0, pieces => pieces.dropWhile isVoid
  | n + 1, pieces => dropComponents n (pieces.dropWhile isVoid).tail

/-- What is left of the path below `base`, if its components begin with those of `base`. -/
def below? (p base : Path) : Option Path :=
  let ⟨start?, pieces⟩ := p.split
  let count := base.components.length
  if base.components.isPrefixOf p.components then
    if count = 0 then some (ofPieces start? (trimPieces pieces))
    else some (ofPieces none (trimPieces (dropComponents (count - start?.toList.length) pieces)))
  else none

/-- The last component, if it is a name. -/
def fileName? (p : Path) : Option String :=
  match p.components.getLast? with
  | some (.named name) => some name
  | _ => none

/-- A name cut at its last dot. A dot that only begins the name does not count. -/
def cutName (name : String) : String × Option String :=
  let reversed := name.toList.reverse
  let extension := (reversed.takeWhile (· != '.')).reverse
  match reversed.dropWhile (· != '.') with
  | [] | [_] => (name, none)
  | _ :: stem => (String.ofList stem.reverse, some (String.ofList extension))

/-- The file's name without its extension. -/
def stem? (p : Path) : Option String :=
  p.fileName?.map fun name => (cutName name).1

/-- The file's name without its extension, empty if the path names no file. -/
def stem (p : Path) : String :=
  p.stem?.getD ""

/-- What follows the last dot of the file's name. -/
def extension? (p : Path) : Option String :=
  p.fileName?.bind fun name => (cutName name).2

end Path

end Calcsheet
