import Calcsheet.Code.Expression

/-!
# The language that has code

Which elements the code generator has code for, said as a grammar: what stands for a value, what may
be defined or shown, and so which worksheets can be translated. Nothing here looks at fragments or
at generated code.
-/

namespace Calcsheet.Code

/-! ## Values -/

/-- The operators on two values. -/
def isDyadic : Kind → Bool
  | .binary _ | .nthRoot | .pow | .indexer => true
  | _ => false

/-- The operators on one name or applied expression. -/
def isMonadic : Kind → Bool
  | .sqrt | .absVal | .neg => true
  | _ => false

/-- The operators on one name. -/
def isNominal : Kind → Bool
  | .find | .vectorSum => true
  | _ => false

mutual

/-- What stands for a value. -/
inductive GoodValue : Element → Prop
  | real {e} (kind : e.kind = .real) : GoodValue e
  | id {e} (kind : e.kind = .id) : GoodValue e
  | imag {e} (kind : e.kind = .imag) : GoodValue e
  | apply {e} (good : GoodApply e) : GoodValue e
  | parens {e} (good : GoodParens e) : GoodValue e
  | sequence {e} (good : GoodSequence e) : GoodValue e

/-- A name or an applied expression. -/
inductive GoodTarget : Element → Prop
  | id {e} (kind : e.kind = .id) : GoodTarget e
  | apply {e} (good : GoodApply e) : GoodTarget e

/-- What may stand in parentheses, in a sequence or behind the name of a function. -/
inductive GoodOperand : Element → Prop
  | real {e} (kind : e.kind = .real) : GoodOperand e
  | id {e} (kind : e.kind = .id) : GoodOperand e
  | apply {e} (good : GoodApply e) : GoodOperand e

inductive GoodParens : Element → Prop
  | mk {e inner} (kind : e.kind = .parens) (children : e.children = [inner])
      (good : GoodOperand inner) : GoodParens e

inductive GoodSequence : Element → Prop
  | mk {e} (kind : e.kind = .sequence) (good : ∀ item ∈ e.children, GoodOperand item) :
      GoodSequence e

/-- An applied operator or function. -/
inductive GoodApply : Element → Prop
  | nothing {e} (kind : e.kind = .apply) (children : e.children = []) : GoodApply e
  | dyadic {e head lhs rhs} (kind : e.kind = .apply) (children : e.children = [head, lhs, rhs])
      (function : isDyadic head.kind = true) (left : GoodValue lhs) (right : GoodValue rhs) :
      GoodApply e
  | call {e head arg} (kind : e.kind = .apply) (children : e.children = [head, arg])
      (function : head.kind = .id) (operand : GoodOperand arg) : GoodApply e
  | list {e head arg} (kind : e.kind = .apply) (children : e.children = [head, arg])
      (function : head.kind = .id) (items : GoodSequence arg)
      (three : identifier head = "if" → arg.children.length = 3) : GoodApply e
  | monadic {e head arg} (kind : e.kind = .apply) (children : e.children = [head, arg])
      (function : isMonadic head.kind = true) (operand : GoodTarget arg) : GoodApply e
  | nominal {e head arg} (kind : e.kind = .apply) (children : e.children = [head, arg])
      (function : isNominal head.kind = true) (operand : arg.kind = .id) : GoodApply e

end

/-! ## Ranges, matrices and programs -/

/-- A number and a bound. -/
def GoodRange (e : Element) : Prop :=
  e.kind = .range ∧ ∃ first bound, e.children = [first, bound] ∧ first.kind = .real ∧
    (bound.kind = .id ∨ GoodParens bound)

/-- A number with a real and an imaginary part. -/
def GoodComplex (e : Element) : Prop :=
  e.kind = .complex ∧ (∃ c ∈ e.children, c.kind = .real) ∧ ∃ c ∈ e.children, c.kind = .imag

/-- Cells, and how many of them are in a column. -/
def GoodMatrix (e : Element) : Prop :=
  e.kind = .matrix ∧
    (∀ c ∈ e.children, c.kind = .real ∨ GoodComplex c ∨ GoodApply c ∨ GoodParens c) ∧
    (e.children ≠ [] → ∃ rows, e.attributes.count? "rows" = some rows ∧ 0 < rows)

mutual

inductive GoodProgram : Element → Prop
  | mk {e} (kind : e.kind = .program) (good : ∀ c ∈ e.children, GoodStatement c) : GoodProgram e

/-- An applied expression, or a branch that gives a number or runs a program. -/
inductive GoodStatement : Element → Prop
  | apply {e} (good : GoodApply e) : GoodStatement e
  | returns {e condition body} (kind : e.kind = .ifThen) (children : e.children = [condition, body])
      (guard : GoodApply condition) (branch : body.kind = .real) : GoodStatement e
  | runs {e condition body} (kind : e.kind = .ifThen) (children : e.children = [condition, body])
      (guard : GoodApply condition) (branch : GoodProgram body) : GoodStatement e

end

/-! ## Definitions and evaluations -/

/-- A function by its name and its parameters. -/
def GoodFunction (e : Element) : Prop :=
  e.kind = .function ∧ ∃ name vars, e.children = [name, vars] ∧ name.kind = .id ∧
    vars.kind = .boundVars ∧ ∀ v ∈ vars.children, GoodValue v

/-- Two sides: a name, a function or an applied expression, and what it is defined as. -/
def GoodDefinition (e : Element) : Prop :=
  ∃ left right, e.children = [left, right] ∧
    (left.kind = .id ∧ (right.kind = .real ∨ right.kind = .id ∨ GoodApply right ∨
        GoodParens right ∨ GoodRange right ∨ GoodMatrix right ∨ GoodProgram right) ∨
      GoodFunction left ∧ (GoodApply right ∨ GoodParens right) ∨
      GoodApply left ∧ (GoodApply right ∨ GoodParens right ∨ GoodProgram right))

/-- A unit by its name or as an applied expression. -/
def GoodUnit (e : Element) : Prop :=
  e.kind = .unitOverride ∧ ∃ unit, e.children = [unit] ∧ GoodTarget unit

/-- A single number, with or without a unit, or a single matrix. -/
def GoodResult (e : Element) : Prop :=
  e.kind = .result ∧ ∃ shown, e.children = [shown] ∧
    (shown.kind = .real ∨
      (shown.kind = .unitedValue ∧ ∃ magnitude unit, shown.children = [magnitude, unit] ∧
        magnitude.kind = .real ∧ unit.kind = .unitMonomial) ∨
      GoodComplex shown ∨ GoodMatrix shown)

/-- What is shown, and what it comes to. -/
def GoodEvaluation (e : Element) : Prop :=
  (∃ target, e.children = [target] ∧ target.kind = .id) ∨
    (∃ target result, e.children = [target, result] ∧ GoodTarget target ∧ GoodResult result) ∨
    ∃ target override result, e.children = [target, override, result] ∧ GoodTarget target ∧
      GoodUnit override ∧ GoodResult result

/-! ## Worksheets -/

/-- All definitions and evaluations below the root are good, and so are the applied expressions
that stand directly in a region. -/
structure GoodWorksheet (root : Element) : Prop where
  definitions : ∀ e ∈ root.descendants, e.kind = .define ∨ e.kind = .globalDefine →
    GoodDefinition e
  evaluations : ∀ e ∈ root.descendants, e.kind = .eval → GoodEvaluation e
  regions : ∀ e, e = root ∨ e ∈ root.descendants → e.kind = .mathRegion →
    ∀ c ∈ e.children, c.kind = .apply → GoodApply c

end Calcsheet.Code
