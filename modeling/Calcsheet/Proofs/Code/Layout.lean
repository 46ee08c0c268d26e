import Calcsheet.Code.Layout

/-!
# The lines of laid out code

`Piece.records` lists the lines of a piece of code, each with its level, and `linesText` writes such
a list. A writer adds exactly these lines, starting at the level where it stands, and is back at that
level afterwards (`Writer.writeAll_eq`). So code moved to another level has the same lines at other
levels (`Piece.recordsAll_add`), and code after code is text after text (`layOut_append`).

A writer that closes a block stops at level 0. `Writer.writeAll?` is one that gives up there instead;
`Writer.writeAll?_eq` says that it never does.
-/

namespace Calcsheet.Code

namespace Piece

mutual

/-- The lines of a piece that stands at a level, each with its own level. -/
def records (level : Nat) : Piece → List (Nat × String)
  | .line text => [(level, text)]
  | .block body closing =>
    (level, "\x7b") :: (recordsAll (level + 1) body ++ [(level, "\x7d" ++ closing)])

/-- The lines of pieces in a row. -/
def recordsAll (level : Nat) : List Piece → List (Nat × String)
  | [] => []
  | piece :: rest => records level piece ++ recordsAll level rest

end

theorem recordsAll_append (level : Nat) (ps qs : List Piece) :
    recordsAll level (ps ++ qs) = recordsAll level ps ++ recordsAll level qs := by
  induction ps with
  | nil => rfl
  | cons piece rest ih => simp [recordsAll, ih]

/-- The line `depth` levels deeper. -/
def deeper (depth : Nat) (r : Nat × String) : Nat × String :=
  (r.1 + depth, r.2)

mutual

theorem records_add (depth : Nat) : ∀ (piece : Piece) (level : Nat),
    records (level + depth) piece = (records level piece).map (deeper depth)
  | .line text, level => rfl
  | .block body closing, level => by
      have inner := recordsAll_add depth body (level + 1)
      simp only [records, List.map_cons, List.map_append, List.map_nil, deeper] at inner ⊢
      rw [← inner, show level + depth + 1 = level + 1 + depth by omega]

theorem recordsAll_add (depth : Nat) : ∀ (ps : List Piece) (level : Nat),
    recordsAll (level + depth) ps = (recordsAll level ps).map (deeper depth)
  | [], level => rfl
  | piece :: rest, level => by
      rw [recordsAll, recordsAll, List.map_append, records_add depth piece level,
        recordsAll_add depth rest level]

end

end Piece

/-- Lines as text, `width` spaces for each level. -/
def linesText (width : Nat) : List (Nat × String) → String
  | [] => ""
  | r :: rest => Text.spaces (width * r.1) ++ r.2 ++ "\n" ++ linesText width rest

/-! ## What a writer does -/

/-- Lines as a writer puts them down, which indents no empty line. -/
def writtenText (width : Nat) : List (Nat × String) → String
  | [] => ""
  | r :: rest => Writer.lineText width r.1 r.2 ++ writtenText width rest

theorem writtenText_append (width : Nat) (rs rs' : List (Nat × String)) :
    writtenText width (rs ++ rs') = writtenText width rs ++ writtenText width rs' := by
  induction rs with
  | nil => simp [writtenText]
  | cons r rest ih => simp [writtenText, ih, String.append_assoc]

theorem writtenText_eq_linesText (width : Nat) {rs : List (Nat × String)}
    (inked : ∀ r ∈ rs, r.2 ≠ "") : writtenText width rs = linesText width rs := by
  induction rs with
  | nil => rfl
  | cons r rest ih =>
    have first : r.2 ≠ "" := inked r (by simp)
    rw [writtenText, linesText, ih fun r' h => inked r' (by simp [h]), Writer.lineText,
      if_neg first, Nat.mul_comm]

namespace Writer

/-- The writer after some lines, at the level where it stands. -/
def add (w : Writer) (rs : List (Nat × String)) : Writer :=
  { w with text := w.text ++ writtenText w.width rs }

theorem add_add (w : Writer) (rs rs' : List (Nat × String)) :
    (w.add rs).add rs' = w.add (rs ++ rs') := by
  simp [add, writtenText_append, String.append_assoc]

theorem line_eq (w : Writer) (text : String) : w.line text = w.add [(w.level, text)] := by
  simp [line, add, writtenText]

/-- A block adds its opening line, what is inside, one level deeper, and its closing line. -/
theorem closeBlock_add_openBlock (w : Writer) (rs : List (Nat × String)) (closing : String) :
    (w.openBlock.add rs).closeBlock closing =
      w.add ((w.level, "\x7b") :: (rs ++ [(w.level, "\x7d" ++ closing)])) := by
  simp [openBlock, closeBlock, line, add, writtenText, writtenText_append, String.append_assoc]

mutual

theorem write_eq : ∀ (piece : Piece) (w : Writer), w.write piece = w.add (piece.records w.level)
  | .line text, w => by rw [write, line_eq, Piece.records]
  | .block body closing, w => by
      have inside : w.openBlock.level = w.level + 1 := rfl
      rw [write, writeAll_eq body w.openBlock, inside, closeBlock_add_openBlock, Piece.records]

/-- A writer adds the lines of the code and keeps its level. -/
theorem writeAll_eq : ∀ (ps : List Piece) (w : Writer),
    w.writeAll ps = w.add (Piece.recordsAll w.level ps)
  | [], w => by simp [writeAll, Piece.recordsAll, add, writtenText]
  | piece :: rest, w => by
      have level : (w.write piece).level = w.level := by rw [write_eq piece w, add]
      rw [writeAll, writeAll_eq rest (w.write piece), level, write_eq piece w, add_add,
        Piece.recordsAll]

end

theorem level_writeAll (ps : List Piece) (w : Writer) : (w.writeAll ps).level = w.level := by
  rw [writeAll_eq, add]

/-! ## Closing what is open -/

mutual

/-- Writes a piece of code, or gives up when a block is to be closed and none is open. -/
def write? (w : Writer) : Piece → Option Writer
  | .line text => some (w.line text)
  | .block body closing => do
    let inner ← w.openBlock.writeAll? body
    if inner.level = 0 then none else some (inner.closeBlock closing)

/-- Writes pieces of code in order, or gives up. -/
def writeAll? (w : Writer) : List Piece → Option Writer
  | [] => some w
  | piece :: rest => do (← w.write? piece).writeAll? rest

end

mutual

theorem write?_eq : ∀ (piece : Piece) (w : Writer), w.write? piece = some (w.write piece)
  | .line text, w => by rw [write?, write]
  | .block body closing, w => by
      have opened : (w.openBlock.writeAll body).level ≠ 0 := by
        rw [level_writeAll, openBlock]
        exact Nat.succ_ne_zero _
      rw [write?, writeAll?_eq body w.openBlock, write]
      simp [opened]

/-- Whenever a block is closed, one is open. -/
theorem writeAll?_eq : ∀ (ps : List Piece) (w : Writer), w.writeAll? ps = some (w.writeAll ps)
  | [], w => by rw [writeAll?, writeAll]
  | piece :: rest, w => by
      rw [writeAll?, write?_eq piece w, writeAll, ← writeAll?_eq rest (w.write piece)]
      rfl

end

end Writer

/-! ## Whole texts -/

theorem layOut_eq (width : Nat) (ps : List Piece) :
    layOut width ps = writtenText width (Piece.recordsAll 0 ps) := by
  simp [layOut, Writer.writeAll_eq, Writer.add]

theorem layOut_append (width : Nat) (ps qs : List Piece) :
    layOut width (ps ++ qs) = layOut width ps ++ layOut width qs := by
  rw [layOut_eq, layOut_eq, layOut_eq, Piece.recordsAll_append, writtenText_append]

end Calcsheet.Code
