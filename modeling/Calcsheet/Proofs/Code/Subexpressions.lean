import Calcsheet.Proofs.Code.Value
import Calcsheet.Proofs.Element

/-!
# Subexpressions

The fragments inside a fragment, and the elements inside an element that stand for values
themselves. What an element only names (the head of an application) or ignores (whatever is inside
a number) is not among them.
-/

namespace Calcsheet.Code

/-! ## Fragments -/

namespace Fragment

/-- The fragments that a fragment is made of. -/
def operands : Fragment → List Fragment
  | empty | atom _ => []
  | binary _ left right => [left, right]
  | call _ arguments => arguments
  | group inner => [inner]
  | index target position => [target, position]
  | negate operand => [operand]
  | complex re im => [re, im]
  | conditional condition whenTrue whenFalse => [condition, whenTrue, whenFalse]
  | list items => items

mutual

/-- The fragment and all that is inside it. -/
def subfragments : Fragment → List Fragment
  | empty => [empty]
  | atom text => [atom text]
  | binary operator left right =>
    binary operator left right :: (left.subfragments ++ right.subfragments)
  | call function arguments => call function arguments :: subfragmentsOf arguments
  | group inner => group inner :: inner.subfragments
  | index target position => index target position :: (target.subfragments ++ position.subfragments)
  | negate operand => negate operand :: operand.subfragments
  | complex re im => complex re im :: (re.subfragments ++ im.subfragments)
  | conditional condition whenTrue whenFalse =>
    conditional condition whenTrue whenFalse ::
      (condition.subfragments ++ (whenTrue.subfragments ++ whenFalse.subfragments))
  | list items => list items :: subfragmentsOf items

/-- Fragments in a row and all that is inside them. -/
def subfragmentsOf : List Fragment → List Fragment
  | [] => []
  | f :: rest => f.subfragments ++ subfragmentsOf rest

end

theorem subfragmentsOf_eq (fs : List Fragment) : subfragmentsOf fs = fs.flatMap subfragments := by
  induction fs with
  | nil => rw [subfragmentsOf, List.flatMap_nil]
  | cons f rest ih => rw [subfragmentsOf, ih, List.flatMap_cons]

theorem subfragments_eq (f : Fragment) : f.subfragments = f :: subfragmentsOf f.operands := by
  cases f <;> simp [subfragments, operands, subfragmentsOf_eq]

/-- What holds of all fragments inside holds of the fragment and of all inside its operands. -/
theorem forall_subfragments_iff {P : Fragment → Prop} {f : Fragment} :
    (∀ g ∈ f.subfragments, P g) ↔ P f ∧ ∀ c ∈ f.operands, ∀ g ∈ c.subfragments, P g := by
  rw [subfragments_eq, List.forall_mem_cons, subfragmentsOf_eq]
  simp only [List.mem_flatMap]
  exact and_congr_right fun _ =>
    ⟨fun h c hc g hg => h g ⟨c, hc, hg⟩, fun h g ⟨c, hc, hg⟩ => h c hc g hg⟩

theorem sizeOf_lt_of_mem_operands {c f : Fragment} (h : c ∈ f.operands) : sizeOf c < sizeOf f := by
  cases f with
  | empty | atom => simp [operands] at h
  | call function arguments =>
    have smaller : sizeOf c < sizeOf arguments := List.sizeOf_lt_of_mem h
    simp only [call.sizeOf_spec]
    omega
  | list items =>
    have smaller : sizeOf c < sizeOf items := List.sizeOf_lt_of_mem h
    simp only [list.sizeOf_spec]
    omega
  | _ =>
    simp only [operands, List.mem_cons, List.not_mem_nil, or_false] at h
    rcases h with rfl | rfl | rfl <;> simp <;> omega

/-- What holds of a fragment as soon as it holds of its operands, holds of every fragment. -/
theorem inductionOperands {P : Fragment → Prop}
    (step : ∀ f : Fragment, (∀ c ∈ f.operands, P c) → P f) (f : Fragment) : P f :=
  step f fun c _ => inductionOperands step c
termination_by sizeOf f
decreasing_by exact sizeOf_lt_of_mem_operands ‹_›

end Fragment

/-! ## Elements -/

/-- The elements whose values an element needs. -/
def operands (e : Element) : List Element :=
  match e.kind with
  | .apply =>
    match e.children with
    | [_, arg] => [arg]
    | [_, lhs, rhs] => [lhs, rhs]
    | _ => []
  | .parens | .sequence => e.children
  | _ => []

mutual

/-- The element and all inside it that stand for values. -/
def subexpressions : Element → List Element
  | .mk name attributes text children =>
    .mk name attributes text children ::
      match Kind.of name with
      | .apply =>
        match children with
        | [_, arg] => subexpressions arg
        | [_, lhs, rhs] => subexpressions lhs ++ subexpressions rhs
        | _ => []
      | .parens | .sequence => subexpressionsOf children
      | _ => []

/-- Elements in a row and all inside them that stand for values. -/
def subexpressionsOf : List Element → List Element
  | [] => []
  | e :: rest => subexpressions e ++ subexpressionsOf rest

end

theorem subexpressionsOf_eq (es : List Element) :
    subexpressionsOf es = es.flatMap subexpressions := by
  induction es with
  | nil => rw [subexpressionsOf, List.flatMap_nil]
  | cons e rest ih => rw [subexpressionsOf, ih, List.flatMap_cons]

theorem subexpressions_eq (e : Element) :
    subexpressions e = e :: subexpressionsOf (operands e) := by
  cases e with
  | mk name attributes text children =>
    rw [subexpressions.eq_def, operands]
    dsimp only [Element.kind, Element.name, Element.children]
    congr 1
    generalize Kind.of name = kind
    split
    case h_1 => split <;> simp [subexpressionsOf_eq]
    case h_2 | h_3 => rfl
    case h_4 => simp [subexpressionsOf_eq]

theorem operands_of_unary {e head arg : Element} (kind : e.kind = .apply)
    (children : e.children = [head, arg]) : operands e = [arg] := by
  rw [operands, kind, children]

theorem operands_of_binary {e head lhs rhs : Element} (kind : e.kind = .apply)
    (children : e.children = [head, lhs, rhs]) : operands e = [lhs, rhs] := by
  rw [operands, kind, children]

theorem mem_children_of_mem_operands {e o : Element} (h : o ∈ operands e) : o ∈ e.children := by
  unfold operands at h
  split at h
  case h_1 =>
    split at h
    case h_3 => simp at h
    all_goals simp_all
  case h_4 => simp at h
  all_goals exact h

/-- What holds of all subexpressions holds of the element and of all inside its operands. -/
theorem forall_subexpressions_iff {P : Element → Prop} {e : Element} :
    (∀ p ∈ subexpressions e, P p) ↔ P e ∧ ∀ o ∈ operands e, ∀ p ∈ subexpressions o, P p := by
  rw [subexpressions_eq, List.forall_mem_cons, subexpressionsOf_eq]
  simp only [List.mem_flatMap]
  exact and_congr_right fun _ =>
    ⟨fun h o ho p hp => h p ⟨o, ho, hp⟩, fun h p ⟨o, ho, hp⟩ => h o ho p hp⟩

end Calcsheet.Code
