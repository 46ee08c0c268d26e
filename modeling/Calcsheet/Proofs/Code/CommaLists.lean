import Calcsheet.Proofs.Code.Meaning
import Calcsheet.Proofs.Code.Subexpressions

/-!
# Where comma lists stand

The code of a sequence is a list of expressions with commas between them. A list has a place of its
own as the position of an index, as in `m[i, j]`, and the arguments of a call are the items of a
sequence, not a list. No other operand is a list as long as no element asks for one: the operands
of operators and powers and the target of an index are taken as they are (`lists_of_value`).
-/

namespace Calcsheet.Code

/-- The operands of an operator, a root or a power, and the target of an index. -/
def plainOperands (e : Element) : List Element :=
  match e.kind, e.children with
  | .apply, [head, lhs, rhs] =>
    match head.kind with
    | .binary _ | .nthRoot | .pow => [lhs, rhs]
    | .indexer => [lhs]
    | _ => []
  | _, _ => []

/-- What may stand in a fragment as an operand: one expression, the position of an index, and, if
there is a sequence where it does not belong, a list where that would put it. -/
inductive Allowed (stray : Prop) : Fragment → Fragment → Prop
  | single {f operand} (h : operand.IsSingle) : Allowed stray f operand
  | position {target position} : Allowed stray (.index target position) position
  | target {target position} (h : stray) : Allowed stray (.index target position) target
  | operator {symbol left right operand} (h : stray) :
    Allowed stray (.binary symbol left right) operand
  | power {arguments operand} (h : stray) : Allowed stray (.call "Math.Pow" arguments) operand

/-- All operands at any depth are allowed where they stand. -/
def Fragment.AllAllowed (stray : Prop) (f : Fragment) : Prop :=
  ∀ g ∈ f.subfragments, ∀ operand ∈ g.operands, Allowed stray g operand

variable {stray : Prop}

theorem Fragment.AllAllowed.intro {f : Fragment} (own : ∀ c ∈ f.operands, Allowed stray f c)
    (inner : ∀ c ∈ f.operands, c.AllAllowed stray) : f.AllAllowed stray :=
  forall_subfragments_iff.2 ⟨own, inner⟩

theorem Fragment.AllAllowed.operand {f c : Fragment} (h : f.AllAllowed stray) (hc : c ∈ f.operands) :
    c.AllAllowed stray :=
  (forall_subfragments_iff.1 h).2 c hc

theorem Fragment.allAllowed_atom (text : String) : (atom text).AllAllowed stray :=
  .intro (by simp [operands]) (by simp [operands])

/-- Operands that are single expressions are allowed anywhere. -/
theorem Fragment.AllAllowed.of_isSingle {f : Fragment} (single : ∀ c ∈ f.operands, c.IsSingle)
    (inner : ∀ c ∈ f.operands, c.AllAllowed stray) : f.AllAllowed stray :=
  .intro (fun c hc => .single (single c hc)) inner

theorem allAllowed_callOf {name : String} {fs : List Fragment}
    (own : ∀ c ∈ fs, Allowed stray (.call name fs) c) (inner : ∀ c ∈ fs, c.AllAllowed stray) :
    (callOf name fs).AllAllowed stray := by
  have call : (Fragment.call name fs).AllAllowed stray := .intro own inner
  refine .of_isSingle ?_ ?_ <;> simp only [callOf, Fragment.operands, List.forall_mem_singleton]
  · trivial
  · exact call

/-- Only a sequence gives a list. -/
theorem isSingle_or_sequence {e : Element} {f : Fragment} (h : value e = .ok f) :
    f.IsSingle ∨ e.kind = .sequence := by
  by_cases operand : isOperandKind e.kind = true
  · exact .inl (isSingle_value h operand)
  cases value_eq_ok_iff.1 h with
  | imag => exact .inl trivial
  | parens _ _ operand ok => exact .inl (isSingle_value ok operand)
  | sequence kind => exact .inr kind
  | _ => simp_all [isOperandKind]

theorem allAllowed_binary (symbol : String) {a b : Fragment} (left : a.IsSingle ∨ stray)
    (right : b.IsSingle ∨ stray) (inner : ∀ c ∈ [a, b], c.AllAllowed stray) :
    (Fragment.binary symbol a b).AllAllowed stray := by
  refine .intro ?_ inner
  rw [Fragment.operands, List.forall_mem_cons, List.forall_mem_singleton]
  exact ⟨left.elim .single .operator, right.elim .single .operator⟩

theorem allAllowed_power {a b : Fragment} (left : a.IsSingle ∨ stray) (right : b.IsSingle ∨ stray)
    (inner : ∀ c ∈ [a, b], c.AllAllowed stray) :
    (callOf "Math.Pow" [a, b]).AllAllowed stray := by
  refine allAllowed_callOf ?_ inner
  rw [List.forall_mem_cons, List.forall_mem_singleton]
  exact ⟨left.elim .single .power, right.elim .single .power⟩

theorem allAllowed_index {a b : Fragment} (left : a.IsSingle ∨ stray)
    (inner : ∀ c ∈ [a, b], c.AllAllowed stray) :
    (Fragment.group (.index a b)).AllAllowed stray := by
  have index : (Fragment.index a b).AllAllowed stray := by
    refine .intro ?_ inner
    rw [Fragment.operands, List.forall_mem_cons, List.forall_mem_singleton]
    exact ⟨left.elim .single .target, .position⟩
  refine .of_isSingle ?_ ?_ <;> rw [Fragment.operands, List.forall_mem_singleton]
  · trivial
  · exact index

/-- A complex number is made of two applied expressions, and those are single. -/
theorem allAllowed_sumOf {lhs rhs : Element} {a b : Fragment} (left : a.IsSingle ∨ stray)
    (right : b.IsSingle ∨ stray)
    (single : lhs.kind = .apply ∧ rhs.kind = .apply → a.IsSingle ∧ b.IsSingle)
    (inner : ∀ c ∈ [a, b], c.AllAllowed stray) : (sumOf lhs rhs a b).AllAllowed stray := by
  have binary := allAllowed_binary BinaryOp.plus.symbol left right inner
  unfold sumOf
  split
  · next kinds =>
    obtain ⟨ha, hb⟩ := single kinds
    split
    · exact .of_isSingle (by simp [Fragment.operands, ha, hb]) inner
    · exact .of_isSingle (by simp [Fragment.operands, ha, hb]) fun c hc => inner c (by
        simpa [Fragment.operands, or_comm] using hc)
    · exact binary
  · exact binary

theorem plainOperands_of_binary {e head lhs rhs : Element} {op : BinaryOp} (kind : e.kind = .apply)
    (children : e.children = [head, lhs, rhs]) (function : head.kind = .binary op) :
    plainOperands e = [lhs, rhs] := by
  simp [plainOperands, kind, children, function]

theorem plainOperands_of_power {e head lhs rhs : Element} (kind : e.kind = .apply)
    (children : e.children = [head, lhs, rhs])
    (function : head.kind = .nthRoot ∨ head.kind = .pow) : plainOperands e = [lhs, rhs] := by
  rcases function with function | function <;> simp [plainOperands, kind, children, function]

section Rules

variable {e : Element} {f : Fragment}
  (strays : ∀ s ∈ plainOperands e, s.kind = .sequence → stray)
  (inner : ∀ o ∈ operands e, ∀ g, value o = .ok g → g.AllAllowed stray)

include inner

theorem allAllowed_of_unary {head arg : Element} {a : Fragment} (kind : e.kind = .apply)
    (children : e.children = [head, arg]) (ok : value arg = .ok a) : a.AllAllowed stray :=
  inner arg (by simp [operands_of_unary kind children]) a ok

/-- The items of a sequence that is the only operand. -/
theorem allAllowed_of_items {head arg : Element} {fs : List Fragment} (kind : e.kind = .apply)
    (children : e.children = [head, arg]) (operand : arg.kind = .sequence)
    (ok : sequenceItems arg.children = .ok fs) : ∀ c ∈ fs, c.AllAllowed stray := by
  have list := allAllowed_of_unary inner kind children (value_of_sequence operand ok)
  exact fun c hc => list.operand hc

theorem allAllowed_of_both {head lhs rhs : Element} {a b : Fragment} (kind : e.kind = .apply)
    (children : e.children = [head, lhs, rhs]) (left : value lhs = .ok a)
    (right : value rhs = .ok b) : ∀ c ∈ [a, b], c.AllAllowed stray := by
  have operands := operands_of_binary kind children
  rw [List.forall_mem_cons, List.forall_mem_singleton]
  exact ⟨inner lhs (by simp [operands]) a left, inner rhs (by simp [operands]) b right⟩

include strays

theorem allAllowed_of_valueRule (h : ValueRule e f) : f.AllAllowed stray := by
  have plain {s : Element} {c : Fragment} (hs : s ∈ plainOperands e) (ok : value s = .ok c) :
      c.IsSingle ∨ stray :=
    (isSingle_or_sequence ok).imp_right (strays s hs)
  cases h with
  | real | id | imag => exact Fragment.allAllowed_atom _
  | nothing => exact .intro (by simp [Fragment.operands]) (by simp [Fragment.operands])
  | parens kind children operand ok => exact inner _ (by simp [operands, kind, children]) _ ok
  | sequence kind ok =>
    refine .of_isSingle (isSingle_sequenceItems ok) (sequenceItems_induction ?_ ok)
    exact fun c hc g _ ok => inner c (by rwa [operands, kind]) g ok
  | named kind children function operand | nameOnly kind children function operand =>
    refine allAllowed_callOf ?_ ?_ <;> rw [List.forall_mem_singleton]
    · exact .single trivial
    · exact Fragment.allAllowed_atom _
  | called kind children function operand ok | builtin kind children function operand ok =>
    refine allAllowed_callOf ?_ ?_ <;> rw [List.forall_mem_singleton]
    · exact .single (isSingle_value ok (by rcases operand with h | h <;> rw [h] <;> rfl))
    · exact allAllowed_of_unary inner kind children ok
  | chosen kind children function operand isIf ok =>
    exact .of_isSingle (isSingle_sequenceItems ok)
      (allAllowed_of_items inner kind children operand ok)
  | listed kind children function operand notIf ok =>
    exact allAllowed_callOf (fun c hc => .single (isSingle_sequenceItems ok c hc))
      (allAllowed_of_items inner kind children operand ok)
  | negated kind children function operand ok =>
    refine .of_isSingle ?_ ?_ <;> rw [Fragment.operands, List.forall_mem_singleton]
    · exact isSingle_value ok (by rcases operand with h | h <;> rw [h] <;> rfl)
    · exact allAllowed_of_unary inner kind children ok
  | sum kind children function left right =>
    have slots := plainOperands_of_binary kind children function
    have both := allAllowed_of_both inner kind children left right
    refine allAllowed_sumOf (plain (by simp [slots]) left) (plain (by simp [slots]) right) ?_ both
    exact fun kinds => ⟨isSingle_value left (by rw [kinds.1]; rfl),
      isSingle_value right (by rw [kinds.2]; rfl)⟩
  | operation kind children function notPlus left right =>
    have slots := plainOperands_of_binary kind children function
    exact allAllowed_binary _ (plain (by simp [slots]) left) (plain (by simp [slots]) right)
      (allAllowed_of_both inner kind children left right)
  | @root head lhs rhs a b kind children function left right =>
    have slots := plainOperands_of_power kind children (.inl function)
    obtain ⟨ha, hb⟩ := List.forall_mem_cons.1 (allAllowed_of_both inner kind children left right)
    have degree : (Fragment.binary BinaryOp.div.symbol (.atom "1.0") a).AllAllowed stray :=
      allAllowed_binary _ (.inl trivial) (plain (by simp [slots]) left)
        (List.forall_mem_cons.2 ⟨Fragment.allAllowed_atom _, List.forall_mem_singleton.2 ha⟩)
    refine allAllowed_power (plain (by simp [slots]) right) (.inl trivial) ?_
    exact List.forall_mem_cons.2 ⟨hb b (by simp), List.forall_mem_singleton.2 degree⟩
  | power kind children function left right =>
    have slots := plainOperands_of_power kind children (.inr function)
    exact allAllowed_power (plain (by simp [slots]) left) (plain (by simp [slots]) right)
      (allAllowed_of_both inner kind children left right)
  | indexed kind children function left right =>
    refine allAllowed_index (plain ?_ left) (allAllowed_of_both inner kind children left right)
    simp [plainOperands, kind, children, function]

end Rules

theorem allAllowed_value {e : Element} {f : Fragment}
    (strays : ∀ p ∈ subexpressions e, ∀ s ∈ plainOperands p, s.kind = .sequence → stray)
    (h : value e = .ok f) : f.AllAllowed stray := by
  induction e using Element.inductionBelow generalizing f with
  | step e below =>
    obtain ⟨own, inside⟩ := forall_subexpressions_iff.1 strays
    refine allAllowed_of_valueRule own (fun o ho g ok => ?_) (value_eq_ok_iff.1 h)
    exact below o (Element.mem_descendants_of_mem_children (mem_children_of_mem_operands ho))
      (inside o ho) ok

theorem value_eq_ok_iff_of_indexer {e head target position : Element} {f : Fragment}
    (kind : e.kind = .apply) (children : e.children = [head, target, position])
    (function : head.kind = .indexer) :
    value e = .ok f ↔
      ∃ a, value target = .ok a ∧ ∃ b, value position = .ok b ∧ .group (.index a b) = f := by
  rw [value_eq, kind, children]
  dsimp only
  rw [binaryRule?, function]
  simp only [bind_eq_ok_iff, Except.ok.injEq]

/-- At any depth a list is an operand of an operator, an index or a power only. If no sequence is an
operand of an operator, root or power or the target of an index, then a list is the position of an
index only. It is that where the position is a sequence. -/
theorem lists_of_value {e : Element} {f : Fragment} (h : value e = .ok f) :
    (∀ g ∈ f.subfragments, ∀ items, .list items ∈ g.operands →
      (∃ symbol left right, g = .binary symbol left right) ∨
      (∃ target position, g = .index target position) ∨
      ∃ arguments, g = .call "Math.Pow" arguments) ∧
    ((∀ p ∈ subexpressions e, ∀ s ∈ plainOperands p, s.kind ≠ .sequence) →
      ∀ g ∈ f.subfragments, ∀ items, .list items ∈ g.operands →
        ∃ target, g = .index target (.list items)) ∧
    ∀ head target position, e.kind = .apply → e.children = [head, target, position] →
      head.kind = .indexer → position.kind = .sequence →
      ∃ a items, value target = .ok a ∧ sequenceItems position.children = .ok items ∧
        f = .group (.index a (.list items)) := by
  refine ⟨fun g hg items mem => ?_, fun apart g hg items mem => ?_, ?_⟩
  · have allowed : f.AllAllowed True := allAllowed_value (fun _ _ _ _ _ => trivial) h
    cases allowed g hg _ mem with
    | single single => exact single.elim
    | position | target => exact .inr (.inl ⟨_, _, rfl⟩)
    | operator => exact .inl ⟨_, _, _, rfl⟩
    | power => exact .inr (.inr ⟨_, rfl⟩)
  · have allowed : f.AllAllowed False := allAllowed_value apart h
    cases allowed g hg _ mem with
    | single single => exact single.elim
    | position => exact ⟨_, rfl⟩
    | target stray | operator stray | power stray => exact stray.elim
  · intro head target position kind children function sequence
    obtain ⟨a, ha, b, hb, rfl⟩ := (value_eq_ok_iff_of_indexer kind children function).1 h
    obtain ⟨items, hitems, rfl⟩ := sequenceItems_of_value sequence hb
    exact ⟨a, items, ha, hitems, rfl⟩

/-- The element of a matrix or table at two places. -/
def elementAt (name : String) (row column : Element) : Element :=
  mathElement "apply" "" [mathElement "indexer" "" [], mathElement "id" name [],
    mathElement "sequence" "" [row, column]]

/-- `m[i, j]` has a list for an operand. -/
theorem list_mem_operands_elementAt :
    ¬ ∀ f, value (elementAt "m" (mathElement "id" "i" []) (mathElement "id" "j" [])) = .ok f →
      ∀ g ∈ f.subfragments, ∀ items, .list items ∉ g.operands := by
  intro none
  refine none (.group (.index (.atom "m") (.list [.atom "i", .atom "j"]))) rfl
    (.index (.atom "m") (.list [.atom "i", .atom "j"])) ?_ [.atom "i", .atom "j"] ?_
  · simp [Fragment.subfragments]
  · simp [Fragment.operands]

/-- `m[v[k, l] + 1, j]`. -/
def nestedElementAt : Element :=
  elementAt "m" (mathElement "apply" "" [mathElement "plus" "" [],
    elementAt "v" (mathElement "id" "k" []) (mathElement "id" "l" []), mathElement "real" "1" []])
    (mathElement "id" "j" [])

/-- The code of `nestedElementAt`. -/
def nestedElementAtCode : Fragment :=
  .group (.index (.atom "m") (.list [.binary "+"
    (.group (.index (.atom "v") (.list [.atom "k", .atom "l"]))) (.atom "1"), .atom "j"]))

theorem lists_of_nestedElementAt :
    value nestedElementAt = .ok nestedElementAtCode ∧
    (∀ p ∈ subexpressions nestedElementAt, ∀ s ∈ plainOperands p, s.kind ≠ .sequence) ∧
    (∀ g ∈ nestedElementAtCode.subfragments, ∀ items, .list items ∈ g.operands →
      ∃ target, g = .index target (.list items)) ∧
    ∃ a items, value (mathElement "id" "m" []) = .ok a ∧
      sequenceItems (nestedElementAt.children[2]).children = .ok items ∧
      nestedElementAtCode = .group (.index a (.list items)) := by
  have ok : value nestedElementAt = .ok nestedElementAtCode := rfl
  have apart : ∀ p ∈ subexpressions nestedElementAt, ∀ s ∈ plainOperands p, s.kind ≠ .sequence := by
    decide +kernel
  obtain ⟨-, only, position⟩ := lists_of_value ok
  exact ⟨ok, apart, only apart, position _ _ _ (by decide) rfl (by decide) (by decide)⟩

end Calcsheet.Code
