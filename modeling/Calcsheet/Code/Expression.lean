import Calcsheet.Code.Fragment
import Calcsheet.Code.Unsupported

/-!
# Expressions

`value` gives the fragment for an element that stands for a value: a number, an identifier, an
applied operator or function, a parenthesised expression or a sequence. An application is put
together by a rule that its head and the kinds of its operands select, and from the fragments of
the operands.
-/

namespace Calcsheet.Code

/-! ## Identifiers -/

/-- The natural logarithm in code. -/
def naturalLog : String := "Math.Log"

/-- The decimal logarithm in code. -/
def decimalLog : String := "Math.Log10"

/-- The name in code for a name with an optional subscript. A few names stand for constants and
functions of mathematics. -/
def identifierOf (text : String) (subscript? : Option String) : String :=
  let name := match subscript? with
    | some subscript => text ++ "_" ++ subscript
    | none => text
  if name = "π" then "Math.PI"
  else if name = "ln" then naturalLog
  else if name = "log" then decimalLog
  else name

/-- The name in code of an identifier. -/
def identifier (e : Element) : String :=
  identifierOf e.text (e.attributes.get? "subscript")

/-! ## Rules of application -/

/-- There is an imaginary number below the element. -/
def hasImaginary (e : Element) : Bool :=
  e.descendants.any fun d => d.kind = .imag

/-- A call stands in parentheses. -/
def callOf (function : String) (arguments : List Fragment) : Fragment :=
  .group (.call function arguments)

/-- The sum of two operands. If both are applied expressions and exactly one has an imaginary
number in it, they are the two parts of a complex number. -/
def sumOf (lhs rhs : Element) (a b : Fragment) : Fragment :=
  if lhs.kind = .apply ∧ rhs.kind = .apply then
    match hasImaginary lhs, hasImaginary rhs with
    | false, true => .complex a b
    | true, false => .complex b a
    | _, _ => .binary BinaryOp.plus.symbol a b
  else .binary BinaryOp.plus.symbol a b

/-- How the fragments of two operands are put together, if there is code for the head. -/
def binaryRule? (head lhs rhs : Element) : Option (Fragment → Fragment → Fragment) :=
  match head.kind with
  | .binary .plus => some (sumOf lhs rhs)
  | .binary op => some (.binary op.symbol)
  | .nthRoot => some fun degree radicand =>
    callOf "Math.Pow" [radicand, .binary BinaryOp.div.symbol (.atom "1.0") degree]
  | .pow => some fun base exponent => callOf "Math.Pow" [base, exponent]
  | .indexer => some fun target position => .group (.index target position)
  | _ => none

/-- A choice takes a condition and two alternatives, which are the parts of a sequence. -/
def conditionalOf (sequence : Element) (items : List Fragment) : Except Unsupported Fragment :=
  match (Fragment.list items).parts with
  | [condition, whenTrue, whenFalse] => .ok (.conditional condition whenTrue whenFalse)
  | _ => unsupported .conditional sequence

/-- The operand of a function given by two names. The number `e` has a name of its own under the
decimal logarithm. -/
def namedOperand (function operand : String) : String :=
  if function = decimalLog ∧ operand = "e" then "Math.E" else operand

/-- How the fragment of one operand is used, if there is code for the head with such an operand. -/
def unaryRule? (head arg : Element) : Option (Fragment → Except Unsupported Fragment) :=
  match head.kind, arg.kind with
  | .id, .id => some fun _ =>
    let function := identifier head
    .ok (callOf function [.atom (namedOperand function (identifier arg))])
  | .id, .real | .id, .apply => some fun f => .ok (callOf (identifier head) [f])
  | .id, .sequence => some fun f =>
    if identifier head = "if" then conditionalOf arg f.items
    else .ok (callOf (identifier head) f.items)
  | .sqrt, .apply | .sqrt, .id => some fun f => .ok (callOf "Math.Sqrt" [f])
  | .absVal, .apply | .absVal, .id => some fun f => .ok (callOf "Math.Abs" [f])
  | .neg, .apply | .neg, .id => some fun f => .ok (.negate f)
  | .find, .id => some fun f => .ok (callOf "Solve" [f])
  | .vectorSum, .id => some fun f => .ok (callOf "Vector.Sum" [f])
  | _, _ => none

/-! ## Values -/

/-- The kinds that may stand in parentheses or in a sequence. -/
def isOperandKind : Kind → Bool
  | .real | .id | .apply => true
  | _ => false

mutual

/-- The fragment for an element that stands for a value. -/
def value : Element → Except Unsupported Fragment
  | .mk name attributes text children =>
    match Kind.of name with
    | .real => .ok (.atom text)
    | .id => .ok (.atom (identifierOf text (attributes.get? "subscript")))
    | .imag => .ok (.atom (text ++ "i"))
    | .apply =>
      match children with
      | [] => .ok .empty
      | [head, arg] =>
        match unaryRule? head arg with
        | some rule => do rule (← value arg)
        | none => unsupported .apply (.mk name attributes text children)
      | [head, lhs, rhs] =>
        match binaryRule? head lhs rhs with
        | some rule => do
          let a ← value lhs
          let b ← value rhs
          .ok (rule a b)
        | none => unsupported .apply (.mk name attributes text children)
      | _ => unsupported .apply (.mk name attributes text children)
    | .parens =>
      match children with
      | [inner] =>
        if isOperandKind inner.kind then value inner
        else unsupported .parens (.mk name attributes text children)
      | _ => unsupported .parens (.mk name attributes text children)
    | .sequence => do .ok (.list (← sequenceItems children))
    | _ => unsupported .value (.mk name attributes text children)

/-- The fragments for the items of a sequence. -/
def sequenceItems : List Element → Except Unsupported (List Fragment)
  | [] => .ok []
  | item :: rest =>
    if isOperandKind item.kind then do
      let f ← value item
      let fs ← sequenceItems rest
      .ok (f :: fs)
    else unsupported .sequence item

end

/-- A complex number that is written out: the first real and the first imaginary child. -/
def complexLiteral (position : Position) (e : Element) : Except Unsupported Fragment :=
  match e.children.find? (fun c => c.kind = .real), e.children.find? (fun c => c.kind = .imag) with
  | some re, some im => .ok (.complex (.atom re.text) (.atom im.text))
  | _, _ => unsupported position e

/-- The numbers from a first one up to a bound. -/
def rangeOf (e : Element) : Except Unsupported Fragment :=
  match e.children with
  | [first, bound] =>
    if first.kind = .real ∧ (bound.kind = .parens ∨ bound.kind = .id) then do
      let a ← value first
      let b ← value bound
      .ok (.call "Enumerable.Range" [a, .binary BinaryOp.minus.symbol b a])
    else unsupported .range e
  | _ => unsupported .range e

end Calcsheet.Code
