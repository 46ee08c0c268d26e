import Calcsheet.Proofs.Code.Agreement
import Calcsheet.Proofs.Code.Meaning
import Calcsheet.Proofs.Code.Subexpressions

/-!
# Complex pairs

A sum of two applied expressions, exactly one of which has an imaginary number in it, is a complex
pair. Its code makes a complex number, the real part first. The order of the two operands does not
matter, at any set of pairs at any depth, and the sums in the code are those of the element one for
one: a pair gives a complex number, and any other sum keeps its operands in order
(`exchange_and_sums_of_value`).
-/

namespace Calcsheet

theorem BinaryOp.symbol_injective : Function.Injective BinaryOp.symbol := by
  intro op op' h
  rw [← Option.some_inj, ← ofSymbol?_symbol, h, ofSymbol?_symbol]

namespace Code

/-- The element adds two applied expressions, `re` without an imaginary number in it and `im` with
one, in one order or the other. -/
structure ComplexPair (e re im : Element) : Prop where
  kind : e.kind = .apply
  operands : ∃ head, head.kind = .binary .plus ∧
    (e.children = [head, re, im] ∨ e.children = [head, im, re])
  real : re.kind = .apply ∧ ∀ d ∈ re.descendants, d.kind ≠ .imag
  imaginary : im.kind = .apply ∧ ∃ d ∈ im.descendants, d.kind = .imag

/-- The second element is the first one with the operands exchanged at some of its complex pairs,
also of pairs inside pairs. -/
inductive Exchanged : Element → Element → Prop
  | inside {name attributes text children children'}
    (each : List.Forall₂ Exchanged children children') :
    Exchanged (.mk name attributes text children) (.mk name attributes text children')
  | swap {name attributes text head head' lhs lhs' rhs rhs' re im}
    (pair : ComplexPair (.mk name attributes text [head, lhs, rhs]) re im)
    (function : Exchanged head head') (left : Exchanged lhs lhs') (right : Exchanged rhs rhs') :
    Exchanged (.mk name attributes text [head, lhs, rhs])
      (.mk name attributes text [head', rhs', lhs'])

/-! ## Exchanging operands -/

theorem hasImaginary_eq_true_iff {e : Element} :
    hasImaginary e = true ↔ ∃ d ∈ e.descendants, d.kind = .imag := by
  simp [hasImaginary]

theorem hasImaginary_eq_false_iff {e : Element} :
    hasImaginary e = false ↔ ∀ d ∈ e.descendants, d.kind ≠ .imag := by
  simp [hasImaginary]

section Pair

variable {e head lhs rhs re im : Element} {a b : Fragment}

theorem ComplexPair.function (h : ComplexPair e re im) (children : e.children = [head, lhs, rhs]) :
    head.kind = .binary .plus := by
  obtain ⟨head', function, eq | eq⟩ := h.operands <;> cases children.symm.trans eq <;>
    exact function

/-- Both operands of a pair are applied expressions, and one of them only is imaginary. -/
theorem ComplexPair.sides (h : ComplexPair e re im) (children : e.children = [head, lhs, rhs]) :
    (lhs.kind = .apply ∧ rhs.kind = .apply) ∧ hasImaginary lhs ≠ hasImaginary rhs := by
  have real := hasImaginary_eq_false_iff.2 h.real.2
  have imaginary := hasImaginary_eq_true_iff.2 h.imaginary.2
  obtain ⟨head', -, eq | eq⟩ := h.operands <;> cases children.symm.trans eq
  · exact ⟨⟨h.real.1, h.imaginary.1⟩, by simp [real, imaginary]⟩
  · exact ⟨⟨h.imaginary.1, h.real.1⟩, by simp [real, imaginary]⟩

theorem sumOf_swap (kinds : lhs.kind = .apply ∧ rhs.kind = .apply)
    (one : hasImaginary lhs ≠ hasImaginary rhs) : sumOf lhs rhs a b = sumOf rhs lhs b a := by
  rw [sumOf, sumOf, if_pos kinds, if_pos kinds.symm]
  cases hl : hasImaginary lhs <;> cases hr : hasImaginary rhs <;> simp_all

theorem value_of_sum (kind : e.kind = .apply) (children : e.children = [head, lhs, rhs])
    (function : head.kind = .binary .plus) :
    value e = (do .ok (sumOf lhs rhs (← value lhs) (← value rhs))) := by
  rw [value_eq, kind, children]
  dsimp only
  rw [binaryRule?, function]

end Pair

/-- A run that takes its two steps the other way round gives up at another place, but gives the
same if the results are put together the other way round too. -/
theorem Agree.bind_swap {α β : Type} {x x' : Except Unsupported α} {y y' : Except Unsupported α}
    {f g : α → α → β} (first : Agree (fun _ => ()) Eq x x') (second : Agree (fun _ => ()) Eq y y')
    (swapped : ∀ a b, f a b = g b a) :
    Agree (fun _ => ()) Eq (do .ok (f (← x) (← y))) (do .ok (g (← y') (← x'))) := by
  cases first with
  | ok same =>
    cases second with
    | ok same' => exact .ok (same ▸ same' ▸ swapped _ _)
    | error _ => exact .error rfl
  | error _ =>
    cases second with
    | ok _ => exact .error rfl
    | error _ => exact .error rfl

/-- The operands of a pair can be exchanged, and then others put in their place. -/
theorem ComplexPair.sameUse {e e' head head' lhs lhs' rhs rhs' re im : Element}
    (pair : ComplexPair e re im) (kind : e.kind = e'.kind)
    (children : e.children = [head, lhs, rhs]) (children' : e'.children = [head', rhs', lhs'])
    (function : SameUse (fun _ => ()) head head') (left : SameUse (fun _ => ()) lhs lhs')
    (right : SameUse (fun _ => ()) rhs rhs') : SameUse (fun _ => ()) e e' := by
  refine ⟨kind, fun id => by simp [pair.kind] at id, ?_, ?_⟩
  · rw [hasImaginary_eq, hasImaginary_eq e', children, children']
    simp only [List.any_cons, List.any_nil, function.kind, function.imaginary, left.kind,
      left.imaginary, right.kind, right.imaginary]
    ac_rfl
  · have plus := pair.function children
    obtain ⟨kinds, one⟩ := pair.sides children
    rw [value_of_sum pair.kind children plus,
      value_of_sum (kind ▸ pair.kind) children' (function.kind ▸ plus)]
    refine left.value.bind_swap right.value fun a b => ?_
    rw [sumOf_swap kinds one, sumOf_congr right left]

theorem Exchanged.sameUse {e e' : Element} (h : Exchanged e e') : SameUse (fun _ => ()) e e' := by
  induction e using Element.inductionBelow generalizing e' with
  | step e below =>
    cases h with
    | inside each =>
      exact .of_children (forall₂_children below each) rfl (fun _ => rfl) fun _ => rfl
    | swap pair function left right =>
      have operand {c c' : Element} (hc : c ∈ [_, _, _]) (h : Exchanged c c') :=
        below c (Element.mem_descendants_of_mem_children hc) h
      exact pair.sameUse rfl rfl rfl (operand (by simp) function) (operand (by simp) left)
        (operand (by simp) right)

/-! ## Sums and their code -/

/-- The element adds two operands. -/
def isSum (e : Element) : Bool :=
  match e.kind, e.children with
  | .apply, [head, _, _] => head.kind = .binary .plus
  | _, _ => false

/-- The fragment adds two operands or makes a complex number. -/
def Fragment.isSum : Fragment → Bool
  | .complex .. => true
  | .binary operator .. => operator = BinaryOp.plus.symbol
  | _ => false

/-- The fragment is the code that the sum must have: a complex number with the real part first for a
pair, and otherwise the operands in order. -/
inductive SumRule (e : Element) : Fragment → Prop
  | pair {re im a b} (pair : ComplexPair e re im) (real : value re = .ok a)
    (imaginary : value im = .ok b) : SumRule e (.complex a b)
  | ordered {head lhs rhs a b} (children : e.children = [head, lhs, rhs])
    (noPair : ∀ re im, ¬ ComplexPair e re im) (left : value lhs = .ok a)
    (right : value rhs = .ok b) : SumRule e (.binary "+" a b)

theorem SumRule.of_sumOf {e head lhs rhs : Element} {a b : Fragment} (kind : e.kind = .apply)
    (children : e.children = [head, lhs, rhs]) (function : head.kind = .binary .plus)
    (left : value lhs = .ok a) (right : value rhs = .ok b) : SumRule e (sumOf lhs rhs a b) := by
  unfold sumOf
  split
  · next kinds =>
    split
    · next real imaginary =>
      exact .pair ⟨kind, ⟨head, function, .inl children⟩,
        ⟨kinds.1, hasImaginary_eq_false_iff.1 real⟩,
        ⟨kinds.2, hasImaginary_eq_true_iff.1 imaginary⟩⟩ left right
    · next imaginary real =>
      exact .pair ⟨kind, ⟨head, function, .inr children⟩,
        ⟨kinds.2, hasImaginary_eq_false_iff.1 real⟩,
        ⟨kinds.1, hasImaginary_eq_true_iff.1 imaginary⟩⟩ right left
    · next notLeft notRight =>
      refine .ordered children (fun re im pair => ?_) left right
      have one := (pair.sides children).2
      cases hl : hasImaginary lhs <;> cases hr : hasImaginary rhs <;> simp_all
  · next kinds =>
    exact .ordered children (fun re im pair => kinds (pair.sides children).1) left right

/-- The sums among elements and all inside them. -/
def sums (es : List Element) : List Element :=
  (subexpressionsOf es).filter isSum

/-- The sums among fragments and all inside them. -/
def Fragment.sums (fs : List Fragment) : List Fragment :=
  (subfragmentsOf fs).filter isSum

theorem sums_singleton (e : Element) :
    sums [e] = if isSum e then e :: sums (operands e) else sums (operands e) := by
  rw [sums, subexpressionsOf_eq, List.flatMap_singleton, subexpressions_eq, List.filter_cons, sums]

theorem Fragment.sums_singleton (f : Fragment) :
    sums [f] = if f.isSum then f :: sums f.operands else sums f.operands := by
  rw [sums, subfragmentsOf_eq, List.flatMap_singleton, subfragments_eq, List.filter_cons, sums]

/-- The sums of the elements have the sums of the fragments for their code, one for one. -/
def Matched (es : List Element) (fs : List Fragment) : Prop :=
  ∃ gs, gs.Perm (Fragment.sums fs) ∧ List.Forall₂ SumRule (sums es) gs

namespace Matched

variable {e : Element} {es es' : List Element} {f : Fragment} {fs fs' : List Fragment}

theorem nil : Matched [] [] :=
  ⟨[], .refl [], .nil⟩

theorem append (h : Matched es fs) (h' : Matched es' fs') : Matched (es ++ es') (fs ++ fs') := by
  obtain ⟨gs, perm, rules⟩ := h
  obtain ⟨gs', perm', rules'⟩ := h'
  refine ⟨gs ++ gs', ?_, ?_⟩
  · rw [Fragment.sums, Fragment.subfragmentsOf_eq, List.flatMap_append, List.filter_append,
      ← Fragment.subfragmentsOf_eq, ← Fragment.subfragmentsOf_eq]
    exact perm.append perm'
  · rw [Code.sums, subexpressionsOf_eq, List.flatMap_append, List.filter_append,
      ← subexpressionsOf_eq, ← subexpressionsOf_eq]
    exact List.rel_append rules rules'

theorem perm (h : Matched es fs) (reordered : fs.Perm fs') : Matched es fs' := by
  obtain ⟨gs, perm, rules⟩ := h
  refine ⟨gs, perm.trans ?_, rules⟩
  rw [Fragment.sums, Fragment.sums, Fragment.subfragmentsOf_eq, Fragment.subfragmentsOf_eq]
  exact (reordered.flatMap_right _).filter _

/-- An element that is no sum itself has the sums of its operands. -/
theorem element (h : Matched (operands e) fs) (plain : isSum e = false) : Matched [e] fs := by
  rwa [Matched, sums_singleton, plain]

/-- A fragment that is no sum itself has the sums of its operands. -/
theorem fragment (h : Matched es f.operands) (plain : f.isSum = false) : Matched es [f] := by
  rwa [Matched, Fragment.sums_singleton, plain]

theorem sum (h : Matched (operands e) f.operands) (plus : isSum e = true) (rule : SumRule e f) :
    Matched [e] [f] := by
  have plus' : f.isSum = true := by cases rule <;> rfl
  obtain ⟨gs, perm, rules⟩ := h
  rw [Matched, sums_singleton, Fragment.sums_singleton, plus, plus']
  exact ⟨f :: gs, perm.cons f, .cons rule rules⟩

theorem callOf (name : String) (h : Matched es fs) : Matched es [callOf name fs] :=
  fragment (fragment h rfl) rfl

theorem atom (kind : e.kind = .real ∨ e.kind = .id ∨ e.kind = .imag) (text : String) :
    Matched [e] [.atom text] := by
  have operands : operands e = [] := by
    rcases kind with kind | kind | kind <;> rw [Code.operands, kind]
  have plain : isSum e = false := by
    rcases kind with kind | kind | kind <;> simp [isSum, kind]
  refine element (fragment ?_ rfl) plain
  rw [operands]
  exact nil

theorem sequenceItems {items : List Element}
    (each : ∀ c ∈ items, ∀ g, value c = .ok g → Matched [c] [g])
    (h : sequenceItems items = .ok fs) : Matched items fs :=
  sequenceItems_pairing nil append each h

theorem sequence (kind : e.kind = .sequence)
    (each : ∀ c ∈ e.children, ∀ g, value c = .ok g → Matched [c] [g])
    (ok : Code.sequenceItems e.children = .ok fs) : Matched [e] fs := by
  refine element ?_ (by simp [isSum, kind])
  rw [operands, kind]
  exact sequenceItems each ok

theorem unary {head arg : Element} (kind : e.kind = .apply) (children : e.children = [head, arg])
    (h : Matched [arg] fs) : Matched [e] fs := by
  refine element ?_ (by rw [isSum, kind, children])
  rwa [operands_of_unary kind children]

theorem binary {head lhs rhs : Element} (kind : e.kind = .apply)
    (children : e.children = [head, lhs, rhs]) (notPlus : head.kind ≠ .binary .plus)
    (h : Matched [lhs, rhs] fs) : Matched [e] fs := by
  refine element ?_ ?_
  · rwa [operands_of_binary kind children]
  · rw [isSum, kind, children]
    exact decide_eq_false notPlus

end Matched

theorem operands_sumOf_perm (lhs rhs : Element) (a b : Fragment) :
    [a, b].Perm (sumOf lhs rhs a b).operands := by
  unfold sumOf
  split
  · split
    · exact .refl _
    · exact .swap _ _ _
    · exact .refl _
  · exact .refl _

theorem matched_of_valueRule {e : Element} {f : Fragment}
    (below : ∀ d ∈ e.descendants, ∀ g, value d = .ok g → Matched [d] [g]) (h : ValueRule e f) :
    Matched [e] [f] := by
  have child {c : Element} {g : Fragment} (hc : c ∈ e.children) (ok : value c = .ok g) :
      Matched [c] [g] :=
    below c (Element.mem_descendants_of_mem_children hc) g ok
  have pair {head lhs rhs : Element} {a b : Fragment} (children : e.children = [head, lhs, rhs])
      (left : value lhs = .ok a) (right : value rhs = .ok b) : Matched [lhs, rhs] [a, b] :=
    (child (by simp [children]) left).append (child (by simp [children]) right)
  have items {head arg : Element} {fs : List Fragment} (children : e.children = [head, arg])
      (operand : arg.kind = .sequence) (ok : sequenceItems arg.children = .ok fs) :
      Matched [arg] fs :=
    .sequence operand (fun c hc g ok => below c
      (Element.mem_descendants_of_mem_children_children (by simp [children]) hc) g ok) ok
  cases h with
  | real kind | id kind | imag kind => exact .atom (by simp [kind]) _
  | parens kind children operand ok =>
    refine .element ?_ (by simp [isSum, kind])
    rw [operands, kind, children]
    exact child (by simp [children]) ok
  | sequence kind ok => exact .fragment (.sequence kind (fun c hc g => child hc) ok) rfl
  | nothing kind children =>
    refine .element (.fragment ?_ rfl) (by rw [isSum, kind, children])
    rw [operands, kind, children]
    exact .nil
  | named kind children function operand | nameOnly kind children function operand =>
    exact .unary kind children (.callOf _ (.atom (by simp [operand]) _))
  | called kind children function operand ok | builtin kind children function operand ok =>
    exact .unary kind children (.callOf _ (child (by simp [children]) ok))
  | chosen kind children function operand isIf ok =>
    exact .unary kind children (.fragment (items children operand ok) rfl)
  | listed kind children function operand notIf ok =>
    exact .unary kind children (.callOf _ (items children operand ok))
  | negated kind children function operand ok =>
    exact .unary kind children (.fragment (child (by simp [children]) ok) rfl)
  | sum kind children function left right =>
    refine .sum ?_ ?_ (.of_sumOf kind children function left right)
    · rw [operands_of_binary kind children]
      exact (pair children left right).perm (operands_sumOf_perm _ _ _ _)
    · rw [isSum, kind, children]
      exact decide_eq_true function
  | operation kind children function notPlus left right =>
    refine .binary kind children (by simp [function, notPlus]) ?_
    refine .fragment (pair children left right) (decide_eq_false fun symbols => notPlus ?_)
    exact BinaryOp.symbol_injective symbols
  | @root head lhs rhs a b kind children function left right =>
    have one : Matched [] [.atom "1.0"] := .fragment .nil rfl
    have degree : Matched [lhs] [.binary BinaryOp.div.symbol (.atom "1.0") a] :=
      .fragment (one.append (child (by simp [children]) left)) rfl
    have both := degree.append (child (by simp [children]) right)
    exact .binary kind children (by simp [function]) (.callOf _ (both.perm (.swap _ _ _)))
  | power kind children function left right =>
    exact .binary kind children (by simp [function]) (.callOf _ (pair children left right))
  | indexed kind children function left right =>
    exact .binary kind children (by simp [function])
      (.fragment (.fragment (pair children left right) rfl) rfl)

/-- Exchanging the operands of any complex pairs changes nothing: the same fragment comes out, or
none for both. In a fragment the sums are the code of the sums of the element, one for one. -/
theorem exchange_and_sums_of_value (e : Element) :
    (∀ e', Exchanged e e' →
      (∃ f, value e = .ok f ∧ value e' = .ok f) ∨
        ∃ u u', value e = .error u ∧ value e' = .error u') ∧
    ∀ f, value e = .ok f →
      ∃ gs, gs.Perm (f.subfragments.filter Fragment.isSum) ∧
        List.Forall₂ SumRule ((subexpressions e).filter isSum) gs := by
  refine ⟨fun e' exchanged => ?_, fun f ok => ?_⟩
  · have same := exchanged.sameUse.value
    revert same
    generalize value e = x, value e' = x'
    rintro (same | _)
    · exact .inl ⟨_, rfl, same ▸ rfl⟩
    · exact .inr ⟨_, _, rfl, rfl⟩
  · have matched : Matched [e] [f] := by
      induction e using Element.inductionBelow generalizing f with
      | step e below => exact matched_of_valueRule below (value_eq_ok_iff.1 ok)
    simpa [Matched, sums, Fragment.sums, subexpressionsOf_eq, Fragment.subfragmentsOf_eq]
      using matched

theorem Exchanged.refl (e : Element) : Exchanged e e := by
  induction e using Element.inductionBelow with
  | step e below =>
    cases e with
    | mk name attributes text children =>
      exact .inside (List.forall₂_same.2 fun c hc =>
        below c (Element.mem_descendants_of_mem_children hc))

/-- `2 * y` after `complexSum`, a pair inside a pair. -/
def nestedSum : Element :=
  mathElement "apply" "" [mathElement "plus" "" [], complexSum,
    mathElement "apply" "" [mathElement "mult" "" [], mathElement "real" "2" [],
      mathElement "id" "y" []]]

/-- `nestedSum` with the real part first in both pairs. -/
def nestedSumRealFirst : Element :=
  mathElement "apply" "" [mathElement "plus" "" [],
    mathElement "apply" "" [mathElement "mult" "" [], mathElement "real" "2" [],
      mathElement "id" "y" []],
    mathElement "apply" "" [mathElement "plus" "" [],
      mathElement "apply" "" [mathElement "nthRoot" "" [], mathElement "real" "3" [],
        mathElement "id" "x" []],
      mathElement "apply" "" [mathElement "mult" "" [], mathElement "imag" "3" [],
        mathElement "id" "b" []]]]

/-- The code of both. -/
def nestedSumCode : Fragment :=
  .complex (.binary "*" (.atom "2") (.atom "y")) complexSumCode

theorem exchange_and_sums_of_nestedSum :
    Exchanged nestedSum nestedSumRealFirst ∧ value nestedSum = .ok nestedSumCode ∧
    ((∃ f, value nestedSum = .ok f ∧ value nestedSumRealFirst = .ok f) ∨
      ∃ u u', value nestedSum = .error u ∧ value nestedSumRealFirst = .error u') ∧
    ∃ gs, gs.Perm (nestedSumCode.subfragments.filter Fragment.isSum) ∧
      List.Forall₂ SumRule ((subexpressions nestedSum).filter isSum) gs := by
  have outer : ComplexPair nestedSum (nestedSum.children[2]) complexSum :=
    ⟨by decide, ⟨_, by decide, .inr rfl⟩, by decide +kernel, by decide +kernel⟩
  have inner : ComplexPair complexSum (complexSum.children[2]) (complexSum.children[1]) :=
    ⟨by decide, ⟨_, by decide, .inr rfl⟩, by decide +kernel, by decide +kernel⟩
  have exchanged : Exchanged nestedSum nestedSumRealFirst :=
    .swap outer (.refl _) (.swap inner (.refl _) (.refl _) (.refl _)) (.refl _)
  have ok : value nestedSum = .ok nestedSumCode := rfl
  exact ⟨exchanged, ok, (exchange_and_sums_of_value nestedSum).1 _ exchanged,
    (exchange_and_sums_of_value nestedSum).2 _ ok⟩

end Code

end Calcsheet
