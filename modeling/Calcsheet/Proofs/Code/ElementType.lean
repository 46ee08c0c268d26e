import Calcsheet.Proofs.Code.ComplexPairs
import Calcsheet.Proofs.Code.MatrixCells

/-!
# The element type of a matrix

A matrix is complex if one of its cells is a complex number as a whole: one that is written out, or
a complex pair, in parentheses or not (`WholeComplex`). A pair that stands deeper in a cell, under a
negation or as an argument, makes a complex number too (`HoldsComplex`), but the type of the matrix
does not show it (`elementType_of_matrixCode`, `elementType_of_negatedPair`).
-/

namespace Calcsheet.Code

/-- What one of the members of a list has, one of their partners has in its way. -/
theorem exists_mem_congr {α β : Type} {R : α → β → Prop} {P : α → Prop} {Q : β → Prop}
    {xs : List α} {ys : List β} (h : List.Forall₂ R xs ys) (each : ∀ x y, R x y → (P x ↔ Q y)) :
    (∃ x ∈ xs, P x) ↔ ∃ y ∈ ys, Q y := by
  induction h with
  | nil => simp
  | cons first _ ih => simp only [List.exists_mem_cons_iff, each _ _ first, ih]

/-- The element is a complex number as a whole. -/
inductive WholeComplex (e : Element) : Prop
  | literal (kind : e.kind = .complex)
  | pair {re im} (pair : ComplexPair e re im)
  | parens {inner re im} (kind : e.kind = .parens) (children : e.children = [inner])
    (pair : ComplexPair inner re im)

/-- A complex number is made for the element or somewhere inside it. -/
def HoldsComplex (e : Element) : Prop :=
  e.kind = .complex ∨ ∃ p ∈ subexpressions e, ∃ re im, ComplexPair p re im

theorem WholeComplex.holds {e : Element} (h : WholeComplex e) : HoldsComplex e := by
  cases h with
  | literal kind => exact .inl kind
  | pair pair => exact .inr ⟨e, by simp [subexpressions_eq e], _, _, pair⟩
  | @parens inner _ _ kind children pair =>
    refine .inr ⟨inner, ?_, _, _, pair⟩
    rw [subexpressions_eq, operands, kind, children, subexpressionsOf_eq, List.flatMap_singleton,
      subexpressions_eq inner]
    simp

/-! ## Complex numbers in a value -/

section Value

variable {e re im : Element} {f : Fragment}

theorem SumRule.isComplex_iff (h : SumRule e f) :
    f.isComplex = true ↔ ∃ re im, ComplexPair e re im := by
  cases h with
  | pair pair => exact iff_of_true rfl ⟨_, _, pair⟩
  | ordered _ noPair => exact iff_of_false (by simp [Fragment.isComplex]) (by simpa using noPair)

theorem ComplexPair.isSum (h : ComplexPair e re im) : isSum e = true := by
  obtain ⟨head, function, children | children⟩ := h.operands <;>
    simp [Code.isSum, h.kind, children, function]

theorem ComplexPair.isComplex (h : ComplexPair e re im) (ok : value e = .ok f) :
    f.isComplex = true := by
  obtain ⟨head, function, children⟩ := h.operands
  obtain ⟨lhs, rhs, children⟩ : ∃ lhs rhs, e.children = [head, lhs, rhs] := by
    rcases children with children | children <;> exact ⟨_, _, children⟩
  rw [value_of_sum h.kind children function] at ok
  simp only [bind_eq_ok_iff, Except.ok.injEq] at ok
  obtain ⟨a, left, b, right, rfl⟩ := ok
  exact (SumRule.of_sumOf h.kind children function left right).isComplex_iff.2 ⟨_, _, h⟩

/-- The only rule whose code is a complex number is that of a sum. Parentheses are not kept. -/
theorem wholeComplex_of_isComplex (ok : value e = .ok f) (complex : f.isComplex = true) :
    WholeComplex e := by
  have sum {p : Element} (rule : SumRule p f) : ∃ re im, ComplexPair p re im :=
    rule.isComplex_iff.1 complex
  cases value_eq_ok_iff.1 ok with
  | sum kind children function left right =>
    obtain ⟨re, im, pair⟩ := sum (.of_sumOf kind children function left right)
    exact .pair pair
  | @parens inner _ kind children operand ok =>
    cases value_eq_ok_iff.1 ok with
    | sum kind' children' function left right =>
      obtain ⟨re, im, pair⟩ := sum (.of_sumOf kind' children' function left right)
      exact .parens kind children pair
    | parens kind' => simp [kind', isOperandKind] at operand
    | _ => simp [Fragment.isComplex, callOf] at complex
  | _ => simp [Fragment.isComplex, callOf] at complex

theorem isComplex_of_wholeComplex (ok : value e = .ok f) (whole : WholeComplex e) :
    f.isComplex = true := by
  cases whole with
  | literal kind =>
    rw [value_eq, kind] at ok
    exact absurd ok (unsupported_ne_ok _ _ _)
  | pair pair => exact pair.isComplex ok
  | @parens inner re im kind children pair =>
    have operand : isOperandKind inner.kind = true := by rw [pair.kind, isOperandKind]
    rw [value_eq, kind, children] at ok
    dsimp only at ok
    rw [if_pos operand] at ok
    exact pair.isComplex ok

theorem matched_of_value (ok : value e = .ok f) :
    Matched [e] [f] := by
  induction e using Element.inductionBelow generalizing f with
  | step e below =>
    exact matched_of_valueRule (fun d hd g hg => below d hd hg) (value_eq_ok_iff.1 ok)

/-- The complex numbers in the code of an element come from the complex pairs inside it. -/
theorem exists_isComplex_iff (ok : value e = .ok f) :
    (∃ g ∈ f.subfragments, g.isComplex = true) ↔
      ∃ p ∈ subexpressions e, ∃ re im, ComplexPair p re im := by
  obtain ⟨gs, perm, rules⟩ := matched_of_value ok
  have sumOfComplex (g : Fragment) (h : g.isComplex = true) : g.isSum = true := by
    cases g with
    | complex => rfl
    | _ => simp [Fragment.isComplex] at h
  calc (∃ g ∈ f.subfragments, g.isComplex = true)
      ↔ ∃ g ∈ Fragment.sums [f], g.isComplex = true := by
        simp only [Fragment.sums, Fragment.subfragmentsOf_eq, List.flatMap_singleton,
          List.mem_filter, and_assoc]
        exact exists_congr fun g => and_congr_right fun _ =>
          ⟨fun h => ⟨sumOfComplex g h, h⟩, And.right⟩
    _ ↔ ∃ g ∈ gs, g.isComplex = true := by simp only [perm.mem_iff]
    _ ↔ ∃ p ∈ sums [e], ∃ re im, ComplexPair p re im :=
        (exists_mem_congr rules fun p g rule => rule.isComplex_iff.symm).symm
    _ ↔ ∃ p ∈ subexpressions e, ∃ re im, ComplexPair p re im := by
        simp only [sums, subexpressionsOf_eq, List.flatMap_singleton, List.mem_filter, and_assoc]
        refine exists_congr fun p => and_congr_right fun _ => ⟨And.right, ?_⟩
        rintro ⟨re, im, pair⟩
        exact ⟨pair.isSum, re, im, pair⟩

end Value

/-! ## Complex numbers in a cell -/

section Cell

variable {e : Element} {f : Fragment}

theorem isComplex_iff_of_cell (ok : cell e = .ok f) : f.isComplex = true ↔ WholeComplex e := by
  rcases cell_eq_ok_iff.1 ok with ⟨-, ok⟩ | ⟨kind, ok⟩
  · exact ⟨wholeComplex_of_isComplex ok, isComplex_of_wholeComplex ok⟩
  · obtain ⟨re, im, -, -, rfl⟩ := complexLiteral_eq_ok_iff.1 ok
    exact iff_of_true rfl (.literal kind)

theorem exists_isComplex_iff_of_cell (ok : cell e = .ok f) :
    (∃ g ∈ f.subfragments, g.isComplex = true) ↔ HoldsComplex e := by
  rcases cell_eq_ok_iff.1 ok with ⟨kinds, ok⟩ | ⟨kind, ok⟩
  · have notLiteral : e.kind ≠ .complex := by
      rcases kinds with kind | kind | kind <;> simp [kind]
    rw [exists_isComplex_iff ok, HoldsComplex, or_iff_right notLiteral]
  · obtain ⟨re, im, -, -, rfl⟩ := complexLiteral_eq_ok_iff.1 ok
    exact iff_of_true ⟨_, by rw [Fragment.subfragments_eq]; exact List.mem_cons_self, rfl⟩
      (.inl kind)

end Cell

/-! ## Matrices -/

/-- The type of the cells is decided by the cells that are complex numbers as a whole. -/
theorem elementType_cases {es : List Element} {g : Grid}
    (each : List.Forall₂ (fun c f => cell c = .ok f) es g.cells) :
    g.elementType = "Complex" ∧ (∃ c ∈ es, WholeComplex c) ∨
      g.elementType = "double" ∧ ∀ c ∈ es, ¬ WholeComplex c := by
  have whole : g.cells.any Fragment.isComplex = true ↔ ∃ c ∈ es, WholeComplex c := by
    rw [List.any_eq_true]
    exact (exists_mem_congr each fun c f ok => (isComplex_iff_of_cell ok).symm).symm
  rw [Grid.elementType]
  split
  · next complex => exact .inl ⟨rfl, whole.1 complex⟩
  · next plain => exact .inr ⟨rfl, fun c hc h => plain (whole.2 ⟨c, hc, h⟩)⟩

/-- The element type of a matrix is complex if a cell is a complex number as a whole, and double
otherwise. The cells hold complex numbers exactly if a complex number is made somewhere inside one,
so the type covers the cells exactly if this needs no other cells than those. -/
theorem elementType_of_matrixCode {name : String} {e : Element} {ps : List Piece}
    (h : matrixCode name e = .ok ps) :
    ∃ g : Grid, gridOf e = .ok g ∧
      List.Forall₂ (fun c f => cell c = .ok f) e.children g.cells ∧
      ps = [.line ("public Matrix<" ++ g.elementType ++ "> " ++ name),
        .block [.line "get",
          .block ([.line ("var matrix = Matrix<" ++ g.elementType ++ ">.Build.Dense(" ++
              Text.decimal g.rows ++ ", " ++ Text.decimal g.columns ++ ");")] ++
            (g.assignments.map fun a => .line ("matrix[" ++ Text.decimal a.1.1 ++ ", " ++
              Text.decimal a.1.2 ++ "] = " ++ a.2.render ++ ";")) ++
            [.line "return matrix;"]) ""] ""] ∧
      (g.elementType = "Complex" ∧ (∃ c ∈ e.children, WholeComplex c) ∨
        g.elementType = "double" ∧ ∀ c ∈ e.children, ¬ WholeComplex c) ∧
      ((∃ f ∈ g.cells, ∃ s ∈ f.subfragments, s.isComplex = true) ↔
        ∃ c ∈ e.children, HoldsComplex c) ∧
      ((g.elementType = "Complex" ↔
          ∃ f ∈ g.cells, ∃ s ∈ f.subfragments, s.isComplex = true) ↔
        ((∃ c ∈ e.children, HoldsComplex c) → ∃ c ∈ e.children, WholeComplex c)) := by
  obtain ⟨g, hg, rfl⟩ := matrixCode_eq_ok_iff.1 h
  have each := cells_eq_ok_iff.1 (gridOf_eq_ok_iff.1 hg).2.2.1
  have type := elementType_cases each
  have holds : (∃ f ∈ g.cells, ∃ s ∈ f.subfragments, s.isComplex = true) ↔
      ∃ c ∈ e.children, HoldsComplex c :=
    (exists_mem_congr each fun c f ok => (exists_isComplex_iff_of_cell ok).symm).symm
  have inside : (∃ c ∈ e.children, WholeComplex c) → ∃ c ∈ e.children, HoldsComplex c :=
    fun ⟨c, hc, whole⟩ => ⟨c, hc, whole.holds⟩
  refine ⟨g, hg, each, rfl, type, holds, ?_⟩
  rw [holds]
  rcases type with ⟨complex, whole⟩ | ⟨double, none⟩
  · exact iff_of_true (iff_of_true complex (inside whole)) fun _ => whole
  · have noWhole : ¬ ∃ c ∈ e.children, WholeComplex c := fun ⟨c, hc, whole⟩ => none c hc whole
    simp [double, noWhole]

/-- A matrix of one row. -/
def rowOf (cells : List Element) : Element :=
  .mk (.bound Vocabulary.math.uri "matrix")
    (.ofList [("rows", "1"), ("cols", Text.decimal cells.length)]) "" cells

/-- A complex pair in parentheses beside a number. -/
def impedances : Element :=
  rowOf [mathElement "real" "1" [], mathElement "parens" "" [complexSum]]

/-- The code of `impedances`. -/
def impedancesCode : List Piece :=
  [.line "public Matrix<Complex> Z",
    .block [.line "get",
      .block [.line "var matrix = Matrix<Complex>.Build.Dense(1, 2);", .line "matrix[0, 0] = 1;",
        .line "matrix[0, 1] = new Complex((Math.Pow(x, (1.0 / 3))), (3i * b));",
        .line "return matrix;"] ""] ""]

theorem elementType_of_impedances :
    ∃ g : Grid, gridOf impedances = .ok g ∧ matrixCode "Z" impedances = .ok impedancesCode ∧
      g.elementType = "Complex" ∧ ∃ f ∈ g.cells, ∃ s ∈ f.subfragments, s.isComplex = true := by
  have code : matrixCode "Z" impedances = .ok impedancesCode := rfl
  obtain ⟨g, hg, -, -, -, -, covered⟩ := elementType_of_matrixCode code
  have pair : ComplexPair complexSum (complexSum.children[2]) (complexSum.children[1]) :=
    ⟨by decide, ⟨_, by decide, .inr rfl⟩, by decide +kernel, by decide +kernel⟩
  have whole : ∃ c ∈ impedances.children, WholeComplex c :=
    ⟨_, List.mem_cons_of_mem _ List.mem_cons_self, .parens (by decide) rfl pair⟩
  have type : g.elementType = "Complex" := by
    obtain rfl := Except.ok.inj hg
    rfl
  exact ⟨g, hg, code, type, (covered.2 fun _ => whole).1 type⟩

/-- A complex pair that is negated. -/
def negatedPair : Element :=
  rowOf [mathElement "apply" "" [mathElement "neg" "" [], complexSum]]

/-- The only cell of a matrix of numbers is a complex number times -1. -/
theorem elementType_of_negatedPair :
    matrixCode "M" negatedPair =
      .ok [.line "public Matrix<double> M",
        .block [.line "get",
          .block [.line "var matrix = Matrix<double>.Build.Dense(1, 1);",
            .line "matrix[0, 0] = (-1.0 * (new Complex((Math.Pow(x, (1.0 / 3))), (3i * b))));",
            .line "return matrix;"] ""] ""] ∧
    ¬ ∀ (name : String) (e : Element) (ps : List Piece) (g : Grid), matrixCode name e = .ok ps →
      gridOf e = .ok g →
      (g.elementType = "Complex" ↔
        ∃ f ∈ g.cells, ∃ s ∈ f.subfragments, s.isComplex = true) := by
  refine ⟨rfl, fun covered => ?_⟩
  have complex := (covered "M" negatedPair _ _ rfl rfl).2
    ⟨.negate complexSumCode, List.mem_cons_self, complexSumCode,
      List.mem_cons_of_mem _ List.mem_cons_self, rfl⟩
  exact absurd complex (by decide)

end Calcsheet.Code
