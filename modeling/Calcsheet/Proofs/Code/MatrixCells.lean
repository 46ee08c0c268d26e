import Calcsheet.Proofs.Code.Meaning
import Calcsheet.Proofs.Code.MemberRules
import Mathlib.Data.List.Nodup

/-!
# The cells of a matrix

The cells of a matrix are counted down its columns, so the number of a cell is its column times the
number of rows, plus its row. Each cell is assigned once, at a place of its own, and a matrix with
as many cells as places is filled (`assignments_of_matrixCode`). The rows are never exceeded. The
columns are exceeded exactly if there are more cells than places (`lt_columns_iff`).

A number of rows that is 0 cannot divide. `Grid.assignments?` gives up there; it never has to.
-/

namespace Calcsheet.Code

/-! ## Places -/

section Places

variable {rows columns index row column : Nat}

theorem fst_cellPosition_lt (h : 0 < rows) : (cellPosition rows index).1 < rows :=
  Nat.mod_lt index h

theorem index_eq_cellPosition :
    index = (cellPosition rows index).2 * rows + (cellPosition rows index).1 :=
  (Nat.div_add_mod' index rows).symm

theorem cellPosition_injective (rows : Nat) : Function.Injective (cellPosition rows) := by
  intro i j same
  calc i = (cellPosition rows i).2 * rows + (cellPosition rows i).1 := index_eq_cellPosition
    _ = (cellPosition rows j).2 * rows + (cellPosition rows j).1 := by rw [same]
    _ = j := index_eq_cellPosition.symm

theorem cellPosition_of_lt (h : row < rows) :
    cellPosition rows (column * rows + row) = (row, column) := by
  have pos : 0 < rows := by omega
  have remainder : (column * rows + row) % rows = row := by
    rw [Nat.mul_comm, Nat.mul_add_mod, Nat.mod_eq_of_lt h]
  have quotient : (column * rows + row) / rows = column := by
    rw [Nat.mul_comm, Nat.mul_add_div pos, Nat.div_eq_of_lt h, Nat.add_zero]
  rw [cellPosition, remainder, quotient]

theorem snd_cellPosition_lt_iff (h : 0 < rows) :
    (cellPosition rows index).2 < columns ↔ index < rows * columns := by
  rw [cellPosition, Nat.div_lt_iff_lt_mul h, Nat.mul_comm]

end Places

/-- The row and column of a cell, or nothing if that would be a division by zero. -/
def cellPosition? (rows index : Nat) : Option (Nat × Nat) :=
  if rows = 0 then none else some (cellPosition rows index)

namespace Grid

/-- The cells from `index` on with their positions, or nothing if one has none. -/
def assignmentsFrom? (rows index : Nat) : List Fragment → Option (List ((Nat × Nat) × Fragment))
  | [] => some []
  | f :: rest => do
    let position ← cellPosition? rows index
    let others ← assignmentsFrom? rows (index + 1) rest
    some ((position, f) :: others)

/-- The cells with their positions, or nothing if one has none. -/
def assignments? (g : Grid) : Option (List ((Nat × Nat) × Fragment)) :=
  assignmentsFrom? g.rows 0 g.cells

theorem assignmentsFrom?_eq {rows : Nat} (h : 0 < rows) (index : Nat) (fs : List Fragment) :
    assignmentsFrom? rows index fs = some (assignmentsFrom rows index fs) := by
  induction fs generalizing index with
  | nil => rfl
  | cons f rest ih =>
    have position : cellPosition? rows index = some (cellPosition rows index) := if_neg (by omega)
    rw [assignmentsFrom?, position, ih]
    rfl

theorem assignments?_eq {g : Grid} (h : g.cells ≠ [] → 0 < g.rows) :
    g.assignments? = some g.assignments := by
  by_cases empty : g.cells = []
  · rw [assignments?, assignments, empty]
    rfl
  · exact assignmentsFrom?_eq (h empty) 0 g.cells

/-! ## Assignments -/

theorem assignmentsFrom_eq (rows index : Nat) (fs : List Fragment) :
    assignmentsFrom rows index fs =
      (fs.zipIdx index).map fun a => (cellPosition rows a.2, a.1) := by
  induction fs generalizing index with
  | nil => rfl
  | cons f rest ih => rw [assignmentsFrom, ih, List.zipIdx_cons, List.map_cons]

/-- The places that are assigned, in order. -/
def places (g : Grid) : List (Nat × Nat) :=
  g.assignments.map Prod.fst

variable (g : Grid)

theorem map_snd_assignments : g.assignments.map Prod.snd = g.cells := by
  rw [assignments, assignmentsFrom_eq, List.map_map]
  exact List.zipIdx_map_fst 0 g.cells

theorem places_eq : g.places = (List.range g.cells.length).map (cellPosition g.rows) := by
  have numbers : g.cells.zipIdx.map Prod.snd = List.range g.cells.length := by
    rw [List.zipIdx_map_snd, List.range_eq_range']
  rw [places, assignments, assignmentsFrom_eq, List.map_map, ← numbers, List.map_map]
  rfl

theorem nodup_places : g.places.Nodup := by
  rw [places_eq]
  exact List.nodup_range.map (cellPosition_injective g.rows)

variable {g}

theorem mem_places_iff {place : Nat × Nat} :
    place ∈ g.places ↔ ∃ i < g.cells.length, cellPosition g.rows i = place := by
  simp [places_eq]

theorem eq_of_getElem?_places {i : Nat} {place : Nat × Nat} (h : g.places[i]? = some place) :
    place = cellPosition g.rows i := by
  rw [places_eq, List.getElem?_map, Option.map_eq_some_iff] at h
  obtain ⟨j, hj, rfl⟩ := h
  obtain ⟨-, rfl⟩ := List.getElem?_eq_some_iff.1 hj
  rw [List.getElem_range]

/-- With as many cells as places every place is assigned. -/
theorem mem_places_of_full (full : g.cells.length = g.rows * g.columns) {row column : Nat}
    (hrow : row < g.rows) (hcolumn : column < g.columns) : (row, column) ∈ g.places := by
  have inside : column * g.rows + row < g.cells.length := by
    calc column * g.rows + row < column * g.rows + g.rows := by omega
      _ = (column + 1) * g.rows := (Nat.succ_mul column g.rows).symm
      _ ≤ g.columns * g.rows := Nat.mul_le_mul_right g.rows hcolumn
      _ = g.cells.length := by rw [full, Nat.mul_comm]
  exact mem_places_iff.2 ⟨_, inside, cellPosition_of_lt hrow⟩

theorem row_lt_of_mem_places (h : g.cells ≠ [] → 0 < g.rows) {place : Nat × Nat}
    (mem : place ∈ g.places) : place.1 < g.rows := by
  obtain ⟨i, hi, rfl⟩ := mem_places_iff.1 mem
  exact fst_cellPosition_lt (h (List.ne_nil_of_length_pos (by omega)))

/-- The columns suffice exactly if there are no more cells than places. -/
theorem forall_column_lt_iff (h : g.cells ≠ [] → 0 < g.rows) :
    (∀ place ∈ g.places, place.2 < g.columns) ↔ g.cells.length ≤ g.rows * g.columns := by
  by_cases empty : g.cells = []
  · simp [places_eq, empty]
  have pos := h empty
  have some := List.length_pos_iff.2 empty
  constructor
  · intro inside
    -- the last cell is the one that would be too far
    have last := inside _ (mem_places_iff.2 ⟨g.cells.length - 1, by omega, rfl⟩)
    have := (snd_cellPosition_lt_iff pos).1 last
    omega
  · intro few place mem
    obtain ⟨i, hi, rfl⟩ := mem_places_iff.1 mem
    exact (snd_cellPosition_lt_iff pos).2 (by omega)

end Grid

/-! ## Matrices of a worksheet -/

/-- The cells of a matrix are assigned in order, each at a place of its own: cell `i` in the column
and row for which `i` is the column times the number of rows, plus the row. If there are as many
cells as places, every place is assigned once. No position divides by zero, whatever the element. -/
theorem assignments_of_matrixCode (name : String) (e : Element) :
    (∀ g, gridOf e = .ok g → g.assignments? = some g.assignments) ∧
    ∀ ps, matrixCode name e = .ok ps → ∃ g : Grid, gridOf e = .ok g ∧
      g.rows = (e.attributes.count? "rows").getD 0 ∧
      g.columns = (e.attributes.count? "cols").getD 0 ∧
      List.Forall₂ (fun c f => cell c = .ok f) e.children g.cells ∧
      ps = [.line ("public Matrix<" ++ g.elementType ++ "> " ++ name),
        .block [.line "get",
          .block ([.line ("var matrix = Matrix<" ++ g.elementType ++ ">.Build.Dense(" ++
              Text.decimal g.rows ++ ", " ++ Text.decimal g.columns ++ ");")] ++
            (g.assignments.map fun a => .line ("matrix[" ++ Text.decimal a.1.1 ++ ", " ++
              Text.decimal a.1.2 ++ "] = " ++ a.2.render ++ ";")) ++
            [.line "return matrix;"]) ""] ""] ∧
      g.assignments.map Prod.snd = g.cells ∧
      (∀ i place, g.places[i]? = some place →
        place.1 < g.rows ∧ i = place.2 * g.rows + place.1) ∧
      g.places.Nodup ∧
      (g.cells.length = g.rows * g.columns →
        ∀ row < g.rows, ∀ column < g.columns, g.places.count (row, column) = 1) := by
  constructor
  · intro g hg
    exact Grid.assignments?_eq (gridOf_eq_ok_iff.1 hg).2.2.2
  · intro ps h
    obtain ⟨g, hg, rfl⟩ := matrixCode_eq_ok_iff.1 h
    obtain ⟨rows, columns, ok, some⟩ := gridOf_eq_ok_iff.1 hg
    refine ⟨g, hg, rows, columns, cells_eq_ok_iff.1 ok, rfl, g.map_snd_assignments, ?_,
      g.nodup_places, fun full row hrow column hcolumn => ?_⟩
    · intro i place hplace
      refine ⟨Grid.row_lt_of_mem_places some (List.mem_of_getElem? hplace), ?_⟩
      obtain rfl := Grid.eq_of_getElem?_places hplace
      exact index_eq_cellPosition
    · exact List.count_eq_one_of_mem g.nodup_places (Grid.mem_places_of_full full hrow hcolumn)

/-- A matrix with some attributes and numbers for its cells. -/
def numberMatrix (sizes : List (String × String)) (numbers : List String) : Element :=
  .mk (.bound Vocabulary.math.uri "matrix") (.ofList sizes) ""
    (numbers.map fun number => mathElement "real" number [])

/-- Two rows and three columns, all filled. -/
def stiffness : Element :=
  numberMatrix [("rows", "2"), ("cols", "3")] ["1", "2", "3", "4", "5", "6"]

/-- The code of `stiffness`. -/
def stiffnessCode : List Piece :=
  [.line "public Matrix<double> K",
    .block [.line "get",
      .block [.line "var matrix = Matrix<double>.Build.Dense(2, 3);", .line "matrix[0, 0] = 1;",
        .line "matrix[1, 0] = 2;", .line "matrix[0, 1] = 3;", .line "matrix[1, 1] = 4;",
        .line "matrix[0, 2] = 5;", .line "matrix[1, 2] = 6;", .line "return matrix;"] ""] ""]

theorem assignments_of_stiffness :
    ∃ g : Grid, gridOf stiffness = .ok g ∧ matrixCode "K" stiffness = .ok stiffnessCode ∧
      g.assignments? = some g.assignments ∧
      g.places = [(0, 0), (1, 0), (0, 1), (1, 1), (0, 2), (1, 2)] ∧
      ∀ row < 2, ∀ column < 3, g.places.count (row, column) = 1 := by
  obtain ⟨checked, built⟩ := assignments_of_matrixCode "K" stiffness
  have code : matrixCode "K" stiffness = .ok stiffnessCode := rfl
  obtain ⟨g, hg, rows, columns, cells, -, -, -, -, filled⟩ := built _ code
  have full : g.cells.length = g.rows * g.columns := by
    rw [rows, columns, ← cells.length_eq]
    rfl
  have count := filled full
  obtain rfl := Except.ok.inj hg
  exact ⟨_, rfl, code, checked _ rfl, rfl, count⟩

/-- The rows of a matrix are never exceeded. Its columns are not exceeded exactly if there are no
more cells than places. -/
theorem lt_columns_iff {name : String} {e : Element} {ps : List Piece}
    (h : matrixCode name e = .ok ps) :
    ∃ g : Grid, gridOf e = .ok g ∧
      ps = [.line ("public Matrix<" ++ g.elementType ++ "> " ++ name),
        .block [.line "get",
          .block ([.line ("var matrix = Matrix<" ++ g.elementType ++ ">.Build.Dense(" ++
              Text.decimal g.rows ++ ", " ++ Text.decimal g.columns ++ ");")] ++
            (g.assignments.map fun a => .line ("matrix[" ++ Text.decimal a.1.1 ++ ", " ++
              Text.decimal a.1.2 ++ "] = " ++ a.2.render ++ ";")) ++
            [.line "return matrix;"]) ""] ""] ∧
      (∀ a ∈ g.assignments, a.1.1 < g.rows) ∧
      ((∀ a ∈ g.assignments, a.1.2 < g.columns) ↔ g.cells.length ≤ g.rows * g.columns) := by
  obtain ⟨g, hg, rfl⟩ := matrixCode_eq_ok_iff.1 h
  obtain ⟨-, -, -, some⟩ := gridOf_eq_ok_iff.1 hg
  refine ⟨g, hg, rfl, fun a ha => ?_, ?_⟩
  · exact Grid.row_lt_of_mem_places some (List.mem_map_of_mem ha)
  · rw [← Grid.forall_column_lt_iff some, Grid.places, List.forall_mem_map]

theorem lt_columns_stiffness :
    ∃ g : Grid, gridOf stiffness = .ok g ∧ matrixCode "K" stiffness = .ok stiffnessCode ∧
      g.cells.length ≤ g.rows * g.columns ∧
      ∀ a ∈ g.assignments, a.1.1 < g.rows ∧ a.1.2 < g.columns := by
  have code : matrixCode "K" stiffness = .ok stiffnessCode := rfl
  obtain ⟨g, hg, -, inRows, inColumns⟩ := lt_columns_iff code
  have few : g.cells.length ≤ g.rows * g.columns := by
    obtain rfl := Except.ok.inj hg
    decide
  exact ⟨g, hg, code, few, fun a ha => ⟨inRows a ha, inColumns.2 few a ha⟩⟩

/-- A number in one row, where the number of columns is not given, is put into the first of no
columns. -/
theorem columns_exceeded :
    matrixCode "M" (numberMatrix [("rows", "1")] ["5"]) =
      .ok [.line "public Matrix<double> M",
        .block [.line "get",
          .block [.line "var matrix = Matrix<double>.Build.Dense(1, 0);", .line "matrix[0, 0] = 5;",
            .line "return matrix;"] ""] ""] ∧
    ¬ ∀ (name : String) (e : Element) (ps : List Piece) (g : Grid), matrixCode name e = .ok ps →
      gridOf e = .ok g → ∀ a ∈ g.assignments, a.1.1 < g.rows ∧ a.1.2 < g.columns := by
  refine ⟨rfl, fun inside => ?_⟩
  have first := inside "M" (numberMatrix [("rows", "1")] ["5"]) _ _ rfl rfl ((0, 0), .atom "5")
    List.mem_cons_self
  exact Nat.not_lt_zero 0 first.2

end Calcsheet.Code
