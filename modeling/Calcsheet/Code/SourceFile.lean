import Calcsheet.Code.Member
import Calcsheet.Document.Basic
import Calcsheet.Options
import Calcsheet.Text.Basic

/-!
# Source files

All elements below the root of a worksheet are visited in document order. Each one of the math
vocabulary gives code or, where there is no rule for it, a warning about its name. The code is the
body of one class, which is written bare or in a whole source file.
-/

namespace Calcsheet.Code

/-- What elements give, in document order. -/
structure Emission where
  code : List Piece := []
  /-- The warnings about units. -/
  discarded : List Warning := []
  /-- The names of elements without a rule. -/
  unimplemented : List String := []
  deriving Repr, Inhabited

namespace Emission

/-- One emission after another. -/
def append (a b : Emission) : Emission :=
  { code := a.code ++ b.code, discarded := a.discarded ++ b.discarded,
    unimplemented := a.unimplemented ++ b.unimplemented }

instance : Append Emission := ⟨append⟩

/-- The warnings: those about units in order, then one for each name in increasing order. -/
def warnings (e : Emission) : List Warning :=
  e.discarded ++ (Text.sortedNames e.unimplemented).map Warning.unimplemented

end Emission

/-- What an element gives for itself, inside a parent of some kind. -/
def emitOwn (parent : Kind) (e : Element) : Except Unsupported Emission :=
  if e.name.isMath then
    match e.kind with
    | .define | .globalDefine => do .ok { code := ← definition e }
    | .eval => do
      let (code, discarded) ← evaluation e
      .ok { code, discarded }
    | .apply =>
      if parent = .mathRegion then do .ok { code := [propertyLine "Function" (← value e)] }
      else .ok { unimplemented := [e.localName] }
    | _ => .ok { unimplemented := [e.localName] }
  else .ok {}

mutual

/-- What an element gives with all that is below it. -/
def emitElement (parent : Kind) : Element → Except Unsupported Emission
  | .mk name attributes text children => do
    let own ← emitOwn parent (.mk name attributes text children)
    let inner ← emitElements (Kind.of name) children
    .ok (own ++ inner)

/-- What elements in a row give. -/
def emitElements (parent : Kind) : List Element → Except Unsupported Emission
  | [] => .ok {}
  | e :: rest => do
    let first ← emitElement parent e
    let others ← emitElements parent rest
    .ok (first ++ others)

end

/-- What a worksheet gives: all that is below its root. -/
def emitRoot (root : Element) : Except Unsupported Emission :=
  emitElements root.kind root.children

/-- The namespaces that generated code uses. -/
def usings : List String :=
  ["System", "System.Collections.Generic", "System.Linq", "System.Numerics", "System.Text",
   "System.Threading.Tasks", "MathNet.Numerics.LinearAlgebra"]

/-- A source file with the given members in its class. -/
def sourceFile (options : Options) (members : List Piece) : List Piece :=
  usings.map (fun name => .line ("using " ++ name ++ ";")) ++
    [.line "", .line ("namespace " ++ options.namespaceName),
     .braces [.line ("public class " ++ options.className), .braces members]]

/-- The bare members for a worksheet. -/
def members (document : Document) : Except Unsupported (Converted String) := do
  let emission ← emitRoot document.root
  .ok { value := layOut ({} : Options).indent emission.code, warnings := emission.warnings }

/-- The source file for a worksheet. -/
def emit (options : Options) (document : Document) : Except Unsupported (Converted String) := do
  let emission ← emitRoot document.root
  .ok { value := layOut options.indent (sourceFile options emission.code),
        warnings := emission.warnings }

end Calcsheet.Code
