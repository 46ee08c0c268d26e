import Calcsheet.Path

/-!
# File trees

A tree of folders and files, and what can be done to it by path. The top of the tree is both where
absolute paths begin and where relative ones are seen from. Going through a path, every step but the
last has to lead to a folder, dots stay where they are, and two dots go up.
-/

namespace Calcsheet

/-- A file with its content, or a folder with its entries by name. -/
inductive FileTree where
  | file (content : ByteArray)
  | folder (entries : List (String × FileTree))
  deriving Inhabited

/-- Why something cannot be done to a file tree. -/
inductive FileError where
  | notFound
  | alreadyExists
  | notFolder
  | isFolder
  /-- A file that is to be text is not UTF-8. -/
  | notText
  /-- Anything else that a system says. -/
  | other (message : String)
  deriving DecidableEq, Repr, Inhabited

/-- What is wrong, in words. -/
def FileError.message : FileError → String
  | notFound => "No such file or directory (os error 2)"
  | alreadyExists => "File exists (os error 17)"
  | notFolder => "Not a directory (os error 20)"
  | isFolder => "Is a directory (os error 21)"
  | notText => "stream did not contain valid UTF-8"
  | other message => message

namespace FileTree

/-- A place in a tree: the names on the way down to it. -/
abbrev Place := List String

/-- What stands at a place. -/
def get? : FileTree → Place → Option FileTree
  | tree, [] => some tree
  | .file _, _ :: _ => none
  | .folder entries, name :: rest =>
    match entries.lookup name with
    | some entry => entry.get? rest
    | none => none

/-- The entries with `tree` under `name`, in the place of what was there. -/
def setEntry (name : String) (tree : FileTree) :
    List (String × FileTree) → List (String × FileTree)
  | [] => [(name, tree)]
  | (n, t) :: rest => if n = name then (name, tree) :: rest else (n, t) :: setEntry name tree rest

/-- The tree with `new` at a place, if the folder that the place is in exists. -/
def put (new : FileTree) : Place → FileTree → FileTree
  | [], _ => new
  | _ :: _, .file content => .file content
  | name :: rest, .folder entries =>
    match entries.lookup name, rest with
    | some entry, rest => .folder (setEntry name (put new rest entry) entries)
    | none, [] => .folder (setEntry name new entries)
    | none, _ :: _ => .folder entries

/-! ## Going along a path -/

/-- The names and dots on a path, from its start. -/
def steps (p : Path) : List String :=
  (Path.piecesOf p.text.toList).filter fun piece => piece != ""

/-- The path ends in a slash, so it leads to a folder or nowhere. -/
def endsInSlash (p : Path) : Bool :=
  p.text.toList.getLast? = some '/'

/-- The place after some steps from a place. -/
def walk (tree : FileTree) (place : Place) : List String → Except FileError Place
  | [] => .ok place
  | step :: rest =>
    match tree.get? place with
    | none => .error .notFound
    | some (.file _) => .error .notFolder
    | some (.folder entries) =>
      if step = "." then walk tree place rest
      else if step = ".." then walk tree place.dropLast rest
      else if (entries.lookup step).isSome then walk tree (place ++ [step]) rest
      else .error .notFound

/-- The place that a path leads to. -/
def locate (tree : FileTree) (p : Path) : Except FileError Place :=
  if p.text = "" then .error .notFound
  else tree.walk [] (if endsInSlash p then steps p ++ ["."] else steps p)

/-- What stands at a path. -/
def find (tree : FileTree) (p : Path) : Except FileError FileTree := do
  match tree.get? (← tree.locate p) with
  | some entry => .ok entry
  | none => .error .notFound

/-- There is a folder at a path. -/
def hasFolder (tree : FileTree) (p : Path) : Bool :=
  match tree.find p with
  | .ok (.folder _) => true
  | _ => false

/-! ## Reading -/

/-- The content of a file. -/
def read (tree : FileTree) (p : Path) : Except FileError ByteArray := do
  match ← tree.find p with
  | .file content => .ok content
  | .folder _ => .error .isFolder

/-- Bytes taken as text. -/
def textOf (content : ByteArray) : Except FileError String :=
  match String.fromUTF8? content with
  | some text => .ok text
  | none => .error .notText

/-- The entries of a folder. -/
def list (tree : FileTree) (p : Path) : Except FileError (List (String × FileTree)) := do
  match ← tree.find p with
  | .folder entries => .ok entries
  | .file _ => .error .notFolder

/-! ## Writing -/

/-- The folder that something new at a path goes into, and its name there, which may be dots. -/
def target (tree : FileTree) (p : Path) : Except FileError (Place × String) :=
  match (steps p).getLast? with
  | none => if p.text = "" then .error .notFound else .ok ([], ".")
  | some name => do
    let place ← tree.walk [] (steps p).dropLast
    match tree.get? place with
    | some (.folder _) => .ok (place, name)
    | some (.file _) => .error .notFolder
    | none => .error .notFound

/-- The name of an entry, not a way to another folder. -/
def isProperName (name : String) : Bool :=
  name != "." && name != ".."

/-- Makes one folder. -/
def makeFolder (tree : FileTree) (p : Path) : Except FileError FileTree := do
  let (place, name) ← tree.target p
  if isProperName name ∧ (tree.get? (place ++ [name])).isNone then
    .ok (put (.folder []) (place ++ [name]) tree)
  else .error .alreadyExists

/-- Makes a folder, if there is none, and before that the folders on the way to it. What has been
made stays, also when a later step fails. The number bounds the folders to be made. -/
def makeFoldersWithin : Nat → FileTree → Path → FileTree × Option FileError
  | 0, tree, _ => (tree, none)
  | fuel + 1, tree, p =>
    let retry (tree : FileTree) : FileTree × Option FileError :=
      match tree.makeFolder p with
      | .ok made => (made, none)
      | .error error => if tree.hasFolder p then (tree, none) else (tree, some error)
    match tree.makeFolder p with
    | .ok made => (made, none)
    | .error .notFound =>
      match p.parent? with
      | none => (tree, some .notFound)
      | some parent =>
        match makeFoldersWithin fuel tree parent with
        | (tree, none) => retry tree
        | (tree, some error) => (tree, some error)
    | .error error => if tree.hasFolder p then (tree, none) else (tree, some error)

/-- Makes a folder and those on the way to it. -/
def makeFolders (tree : FileTree) (p : Path) : FileTree × Option FileError :=
  makeFoldersWithin p.components.length tree p

/-- Writes a file: a new one, or over the content of the one that is there. -/
def write (tree : FileTree) (p : Path) (content : ByteArray) : Except FileError FileTree := do
  let (place, name) ← tree.target p
  match isProperName name && !endsInSlash p, tree.get? (place ++ [name]) with
  | true, none | true, some (.file _) => .ok (put (.file content) (place ++ [name]) tree)
  | _, _ => .error .isFolder

/-! ## Actions -/

/-- Something to be done to a file tree. -/
inductive Action where
  | makeFolders (p : Path)
  | write (p : Path) (content : ByteArray)

/-- The tree after an action, and what went wrong. -/
def act (tree : FileTree) : Action → FileTree × Option FileError
  | .makeFolders p => tree.makeFolders p
  | .write p content =>
    match tree.write p content with
    | .ok written => (written, none)
    | .error error => (tree, some error)

/-- The tree after actions in order, up to the first that goes wrong. -/
def actAll (tree : FileTree) : List Action → FileTree × Option FileError
  | [] => (tree, none)
  | action :: rest =>
    match tree.act action with
    | (tree, none) => tree.actAll rest
    | (tree, some error) => (tree, some error)

/-! ## Listings -/

mutual

/-- All that is below a folder at a path: paths of folders end in a slash and have no content. -/
def listing (path : String) : FileTree → List (String × Option ByteArray)
  | .file content => [(path, some content)]
  | .folder entries => (path ++ "/", none) :: listingAll (path ++ "/") entries

/-- All that is in the entries of a folder whose path, with its slash, is given. -/
def listingAll (path : String) : List (String × FileTree) → List (String × Option ByteArray)
  | [] => []
  | (name, entry) :: rest => listing (path ++ name) entry ++ listingAll path rest

end

end FileTree

end Calcsheet
