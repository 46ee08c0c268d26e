import Calcsheet.Text.Basic

/-!
# Fragments of expressions

A fragment is a piece of an expression in generated code, kept as a tree until it is written. An
operator, a choice or a group always writes its own parentheses, so no fragment has to know what
stands around it. A `list` is several expressions with commas between them.
-/

namespace Calcsheet.Code

/-- A piece of an expression. -/
inductive Fragment where
  | empty
  | atom (text : String)
  | binary (operator : String) (left right : Fragment)
  | call (function : String) (arguments : List Fragment)
  | group (inner : Fragment)
  | index (target position : Fragment)
  | negate (operand : Fragment)
  | complex (re im : Fragment)
  | conditional (condition whenTrue whenFalse : Fragment)
  | list (items : List Fragment)
  deriving BEq, Repr, Inhabited

namespace Fragment

mutual

/-- The fragment as it stands in the code. -/
def render : Fragment → String
  | empty => ""
  | atom text => text
  | binary operator left right =>
    "(" ++ left.render ++ " " ++ operator ++ " " ++ right.render ++ ")"
  | call function arguments => function ++ "(" ++ renderList arguments ++ ")"
  | group inner => "(" ++ inner.render ++ ")"
  | index target position => target.render ++ "[" ++ position.render ++ "]"
  | negate operand => "(-1.0 * (" ++ operand.render ++ "))"
  | complex re im => "new Complex(" ++ re.render ++ ", " ++ im.render ++ ")"
  | conditional condition whenTrue whenFalse =>
    "(" ++ condition.render ++ " ? (" ++ whenTrue.render ++ ") : " ++ whenFalse.render ++ ")"
  | list items => renderList items

/-- Fragments with commas between them. -/
def renderList : List Fragment → String
  | [] => ""
  | [f] => f.render
  | f :: rest => f.render ++ ", " ++ renderList rest

end

mutual

/-- The expressions that the fragment consists of: lists are opened, at any depth. -/
def parts : Fragment → List Fragment
  | list items => partsOfList items
  | f => [f]

/-- The expressions of fragments in a row. -/
def partsOfList : List Fragment → List Fragment
  | [] => []
  | f :: rest => f.parts ++ partsOfList rest

end

/-- The items of a list; any other fragment is its own only item. -/
def items : Fragment → List Fragment
  | list items => items
  | f => [f]

/-- The fragment as a whole stands in parentheses when it is written. -/
def isParenthesized : Fragment → Bool
  | binary .. | group _ | negate _ | conditional .. => true
  | _ => false

/-- The fragment makes a complex number. -/
def isComplex : Fragment → Bool
  | complex .. => true
  | _ => false

/-! ## The text of each form -/

section

variable (f g h : Fragment) (fs : List Fragment)

@[simp] theorem render_atom (text : String) : (atom text).render = text :=
  rfl

@[simp] theorem render_binary (operator : String) :
    (binary operator f g).render =
      "(" ++ f.render ++ " " ++ operator ++ " " ++ g.render ++ ")" :=
  rfl

@[simp] theorem render_call (function : String) :
    (call function fs).render = function ++ "(" ++ renderList fs ++ ")" :=
  rfl

@[simp] theorem render_group : (group f).render = "(" ++ f.render ++ ")" :=
  rfl

@[simp] theorem render_index :
    (index f g).render = f.render ++ "[" ++ g.render ++ "]" :=
  rfl

@[simp] theorem render_negate : (negate f).render = "(-1.0 * (" ++ f.render ++ "))" :=
  rfl

@[simp] theorem render_complex :
    (complex f g).render = "new Complex(" ++ f.render ++ ", " ++ g.render ++ ")" :=
  rfl

@[simp] theorem render_conditional :
    (conditional f g h).render =
      "(" ++ f.render ++ " ? (" ++ g.render ++ ") : " ++ h.render ++ ")" :=
  rfl

@[simp] theorem renderList_nil : renderList [] = "" :=
  rfl

@[simp] theorem renderList_singleton : renderList [f] = f.render :=
  rfl

@[simp] theorem renderList_cons_cons :
    renderList (f :: g :: fs) = f.render ++ ", " ++ renderList (g :: fs) :=
  rfl

theorem renderList_eq : renderList fs = Text.joinWith ", " (fs.map render) := by
  induction fs with
  | nil => rfl
  | cons f rest ih =>
    cases rest with
    | nil => rfl
    | cons g rest =>
      rw [renderList_cons_cons, ih]
      rfl

end

end Fragment

end Calcsheet.Code
