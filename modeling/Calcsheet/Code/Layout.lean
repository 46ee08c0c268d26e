import Calcsheet.Text.Basic

/-!
# Laying out code

Code is lines and blocks, and a block is code between braces. A writer puts them down one line at a
time and keeps the level of nesting, from which the indentation follows.
-/

namespace Calcsheet.Code

/-- A piece of code. -/
inductive Piece where
  | line (text : String)
  /-- Code between braces; `closing` follows the closing brace on its line. -/
  | block (body : List Piece) (closing : String)
  deriving Repr, Inhabited

namespace Piece

/-- Code between plain braces. -/
def braces (body : List Piece) : Piece :=
  .block body ""

end Piece

/-- The text written so far, and where the next line goes. -/
structure Writer where
  /-- Spaces for each level. -/
  width : Nat
  /-- Blocks that are open. -/
  level : Nat := 0
  text : String := ""
  deriving DecidableEq, Repr, Inhabited

namespace Writer

/-- A line at a level. An empty line is not indented. -/
def lineText (width level : Nat) (text : String) : String :=
  if text = "" then "\n" else Text.spaces (level * width) ++ text ++ "\n"

/-- Writes one line. -/
def line (w : Writer) (text : String) : Writer :=
  { w with text := w.text ++ lineText w.width w.level text }

/-- Writes an opening brace; what follows is one level deeper. -/
def openBlock (w : Writer) : Writer :=
  let w := w.line "\x7b"
  { w with level := w.level + 1 }

/-- Writes a closing brace and `closing`, one level less deep. -/
def closeBlock (w : Writer) (closing : String) : Writer :=
  { w with level := w.level - 1 }.line ("\x7d" ++ closing)

mutual

/-- Writes a piece of code. -/
def write (w : Writer) : Piece → Writer
  | .line text => w.line text
  | .block body closing => (w.openBlock.writeAll body).closeBlock closing

/-- Writes pieces of code in order. -/
def writeAll (w : Writer) : List Piece → Writer
  | [] => w
  | piece :: rest => (w.write piece).writeAll rest

end

end Writer

/-- The text of code that stands at no level, indented by `width` spaces a level. -/
def layOut (width : Nat) (pieces : List Piece) : String :=
  (Writer.writeAll { width } pieces).text

end Calcsheet.Code
