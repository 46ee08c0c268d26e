import Calcsheet.Proofs.Code.Value
import Calcsheet.Proofs.Element

/-!
# The meaning of expressions

An interpretation says what operators, functions and the texts of numbers and names stand for.
Under it the elements of a worksheet have a meaning (`Interpretation.meaning?`), and so have the
fragments of generated code (`Interpretation.codeMeaning?`). Generated code means what the
worksheet means.
-/

namespace Calcsheet

/-- The operator that is written with a symbol. -/
def BinaryOp.ofSymbol? (symbol : String) : Option BinaryOp :=
  all.find? fun op => op.symbol = symbol

theorem BinaryOp.ofSymbol?_symbol (op : BinaryOp) : ofSymbol? op.symbol = some op := by
  cases op <;> rfl

namespace Code

universe u

/-- What expressions stand for in a domain `V`. -/
structure Interpretation (V : Type u) where
  operation : BinaryOp → V → V → V
  /-- The order of summands does not matter. -/
  plus_comm : ∀ a b, operation .plus a b = operation .plus b a
  index : V → V → V
  choice : V → V → V → V
  function : String → List V → V
  /-- The value of a number or a name, by its text in code. -/
  atom : String → V
  tuple : List V → V
  /-- The value of an application of nothing. -/
  empty : V

namespace Interpretation

variable {V : Type u} (I : Interpretation V)

/-! ## Elements -/

/-- A function by its name on several arguments. Under the name `if` it is a choice. -/
def applied? (name : String) (xs : List V) : Option V :=
  if name = "if" then
    match xs with
    | [c, t, u] => some (I.choice c t u)
    | _ => none
  else some (I.function name xs)

/-- The meaning of an operator on one operand. -/
def unary? : Kind → Option (V → V)
  | .sqrt => some fun x => I.function "Math.Sqrt" [x]
  | .absVal => some fun x => I.function "Math.Abs" [x]
  | .find => some fun x => I.function "Solve" [x]
  | .vectorSum => some fun x => I.function "Vector.Sum" [x]
  | .neg => some fun x => I.operation .mult (I.atom "-1.0") x
  | _ => none

/-- The meaning of an operator on two operands. -/
def binary? : Kind → Option (V → V → V)
  | .binary op => some (I.operation op)
  | .pow => some fun a b => I.function "Math.Pow" [a, b]
  | .nthRoot => some fun n x => I.function "Math.Pow" [x, I.operation .div (I.atom "1.0") n]
  | .indexer => some I.index
  | _ => none

mutual

/-- The meaning of an element that stands for a value. -/
def meaning? : Element → Option V
  | .mk name attributes text children =>
    match Kind.of name with
    | .real => some (I.atom text)
    | .id => some (I.atom (identifierOf text (attributes.get? "subscript")))
    | .imag => some (I.atom (text ++ "i"))
    | .parens =>
      match children with
      | [inner] => meaning? inner
      | _ => none
    | .sequence => (meanings? children).map I.tuple
    | .apply =>
      match children with
      | [] => some I.empty
      | [head, arg] =>
        if head.kind = .id then
          if arg.kind = .sequence then
            (match arg with | .mk _ _ _ items => meanings? items).bind
              (I.applied? (identifier head))
          else if identifier head = decimalLog ∧ arg.kind = .id ∧ identifier arg = "e" then
            some (I.function decimalLog [I.atom "Math.E"])
          else (meaning? arg).map fun x => I.function (identifier head) [x]
        else do some ((← I.unary? head.kind) (← meaning? arg))
      | [head, lhs, rhs] => do some ((← I.binary? head.kind) (← meaning? lhs) (← meaning? rhs))
      | _ => none
    | _ => none

/-- The meanings of elements in a row. -/
def meanings? : List Element → Option (List V)
  | [] => some []
  | e :: rest => do some ((← meaning? e) :: (← meanings? rest))

end

/-! ## Fragments -/

mutual

/-- The meaning of a fragment of code. An operator is known by its symbol. -/
def codeMeaning? : Fragment → Option V
  | .empty => some I.empty
  | .atom text => some (I.atom text)
  | .binary operator left right =>
    match BinaryOp.ofSymbol? operator with
    | some op => do some (I.operation op (← codeMeaning? left) (← codeMeaning? right))
    | none => none
  | .call function arguments => (codeMeanings? arguments).map (I.function function)
  | .group inner => codeMeaning? inner
  | .index target position => do some (I.index (← codeMeaning? target) (← codeMeaning? position))
  | .negate operand => (codeMeaning? operand).map fun x => I.operation .mult (I.atom "-1.0") x
  | .complex re im => do some (I.operation .plus (← codeMeaning? re) (← codeMeaning? im))
  | .conditional condition whenTrue whenFalse => do
    some (I.choice (← codeMeaning? condition) (← codeMeaning? whenTrue) (← codeMeaning? whenFalse))
  | .list items => (codeMeanings? items).map I.tuple

/-- The meanings of fragments in a row. -/
def codeMeanings? : List Fragment → Option (List V)
  | [] => some []
  | f :: rest => do some ((← codeMeaning? f) :: (← codeMeanings? rest))

end

/-! ## Generated code means what the worksheet means -/

/-- The fragment means what the element means. -/
def Agrees (e : Element) (f : Fragment) : Prop :=
  ∃ v, I.meaning? e = some v ∧ I.codeMeaning? f = some v

theorem meaning?_eq (e : Element) :
    I.meaning? e = match e.kind with
      | .real => some (I.atom e.text)
      | .id => some (I.atom (identifier e))
      | .imag => some (I.atom (e.text ++ "i"))
      | .parens =>
        match e.children with
        | [inner] => I.meaning? inner
        | _ => none
      | .sequence => (I.meanings? e.children).map I.tuple
      | .apply =>
        match e.children with
        | [] => some I.empty
        | [head, arg] =>
          if head.kind = .id then
            if arg.kind = .sequence then
              (I.meanings? arg.children).bind (I.applied? (identifier head))
            else if identifier head = decimalLog ∧ arg.kind = .id ∧ identifier arg = "e" then
              some (I.function decimalLog [I.atom "Math.E"])
            else (I.meaning? arg).map fun x => I.function (identifier head) [x]
          else do some ((← I.unary? head.kind) (← I.meaning? arg))
        | [head, lhs, rhs] => do
          some ((← I.binary? head.kind) (← I.meaning? lhs) (← I.meaning? rhs))
        | _ => none
      | _ => none := by
  obtain ⟨name, attributes, text, children⟩ := e
  rw [meaning?.eq_def]
  match children with
  | [] | [_] | [_, .mk ..] | [_, _, _] | _ :: _ :: _ :: _ :: _ => rfl

theorem applied?_of_ne {name : String} (notIf : name ≠ "if") (vs : List V) :
    I.applied? name vs = some (I.function name vs) := by
  cases vs <;> simp [applied?, notIf]

theorem unary?_of_builtin? {kind : Kind} {name : String} (h : builtin? kind = some name) :
    I.unary? kind = some fun x => I.function name [x] := by
  cases kind <;> cases h <;> rfl

theorem unary?_of_nameOnly? {kind : Kind} {name : String} (h : nameOnly? kind = some name) :
    I.unary? kind = some fun x => I.function name [x] := by
  cases kind <;> cases h <;> rfl

section Shapes

variable {e head arg lhs rhs : Element} {v w : V} {vs : List V}

theorem meaning?_of_items (kind : e.kind = .apply) (children : e.children = [head, arg])
    (function : head.kind = .id) (operand : arg.kind = .sequence)
    (hvs : I.meanings? arg.children = some vs) :
    I.meaning? e = I.applied? (identifier head) vs := by
  rw [meaning?_eq]
  simp only [kind, children, function, operand, if_true, hvs, Option.bind]

/-- A function of one operand, which is neither a list of arguments nor the number `e` under the
decimal logarithm. -/
theorem meaning?_of_call (kind : e.kind = .apply) (children : e.children = [head, arg])
    (function : head.kind = .id) (notSequence : arg.kind ≠ .sequence)
    (notE : ¬ (identifier head = decimalLog ∧ arg.kind = .id ∧ identifier arg = "e"))
    (hv : I.meaning? arg = some v) :
    I.meaning? e = some (I.function (identifier head) [v]) := by
  rw [meaning?_eq]
  simp only [kind, children, function, notSequence, notE, if_true, if_false, hv, Option.map]

theorem agrees_unary {op : V → V} {a f : Fragment} (kind : e.kind = .apply)
    (children : e.children = [head, arg]) (function : I.unary? head.kind = some op)
    (ha : I.Agrees arg a)
    (hf : ∀ v, I.codeMeaning? a = some v → I.codeMeaning? f = some (op v)) :
    I.Agrees e f := by
  obtain ⟨v, hv, hv'⟩ := ha
  have notId : head.kind ≠ .id := by
    intro isId
    simp [isId, unary?] at function
  refine ⟨op v, ?_, hf v hv'⟩
  rw [meaning?_eq]
  simp only [kind, children, notId, if_false, function, hv, bind, Option.bind]

theorem agrees_binary {op : V → V → V} {a b f : Fragment} (kind : e.kind = .apply)
    (children : e.children = [head, lhs, rhs]) (function : I.binary? head.kind = some op)
    (ha : I.Agrees lhs a) (hb : I.Agrees rhs b)
    (hf : ∀ v w, I.codeMeaning? a = some v → I.codeMeaning? b = some w →
      I.codeMeaning? f = some (op v w)) :
    I.Agrees e f := by
  obtain ⟨v, hv, hv'⟩ := ha
  obtain ⟨w, hw, hw'⟩ := hb
  refine ⟨op v w, ?_, hf v w hv' hw'⟩
  rw [meaning?_eq]
  simp only [kind, children, function, hv, hw, bind, Option.bind]

end Shapes

theorem meanings?_sequenceItems {items : List Element} {fs : List Fragment}
    (h : sequenceItems items = .ok fs)
    (agrees : ∀ item ∈ items, ∀ f, value item = .ok f → I.Agrees item f) :
    ∃ vs, I.meanings? items = some vs ∧ I.codeMeanings? fs = some vs := by
  rw [sequenceItems_eq_ok_iff] at h
  induction h with
  | nil => exact ⟨[], by rw [meanings?], by rw [codeMeanings?]⟩
  | @cons item f items fs hf _ ih =>
    obtain ⟨v, hv, hv'⟩ := agrees item (by simp) f hf.2
    obtain ⟨vs, hvs, hvs'⟩ := ih fun item hitem => agrees item (by simp [hitem])
    exact ⟨v :: vs, by simp [meanings?, hv, hvs], by simp [codeMeanings?, hv', hvs']⟩

theorem codeMeaning?_callOf (name : String) {fs : List Fragment} {vs : List V}
    (h : I.codeMeanings? fs = some vs) :
    I.codeMeaning? (callOf name fs) = some (I.function name vs) := by
  simp [callOf, codeMeaning?, h]

theorem codeMeanings?_pair {f g : Fragment} {v w : V} (hf : I.codeMeaning? f = some v)
    (hg : I.codeMeaning? g = some w) : I.codeMeanings? [f, g] = some [v, w] := by
  simp [codeMeanings?, hf, hg]

theorem codeMeanings?_single {f : Fragment} {v : V} (hf : I.codeMeaning? f = some v) :
    I.codeMeanings? [f] = some [v] := by
  simp [codeMeanings?, hf]

theorem codeMeaning?_binary (op : BinaryOp) {f g : Fragment} {v w : V}
    (hf : I.codeMeaning? f = some v) (hg : I.codeMeaning? g = some w) :
    I.codeMeaning? (.binary op.symbol f g) = some (I.operation op v w) := by
  simp [codeMeaning?, BinaryOp.ofSymbol?_symbol, hf, hg]

/-- A sum means the same whether it is written as a sum or as a complex number, in either order of
the parts. -/
theorem codeMeaning?_sumOf (lhs rhs : Element) {f g : Fragment} {v w : V}
    (hf : I.codeMeaning? f = some v) (hg : I.codeMeaning? g = some w) :
    I.codeMeaning? (sumOf lhs rhs f g) = some (I.operation .plus v w) := by
  unfold sumOf
  split
  · split
    · simp [codeMeaning?, hf, hg]
    · rw [I.plus_comm v w]
      simp [codeMeaning?, hf, hg]
    · exact I.codeMeaning?_binary .plus hf hg
  · exact I.codeMeaning?_binary .plus hf hg

theorem agrees_of_valueRule {e : Element} {f : Fragment}
    (below : ∀ d ∈ e.descendants, ∀ g, value d = .ok g → I.Agrees d g) (h : ValueRule e f) :
    I.Agrees e f := by
  have child {c : Element} {g : Fragment} (hc : c ∈ e.children) (hg : value c = .ok g) :
      I.Agrees c g :=
    below c (Element.mem_descendants_of_mem_children hc) g hg
  -- the items of an argument list are two levels down
  have items {arg : Element} {fs : List Fragment} (harg : arg ∈ e.children)
      (hfs : sequenceItems arg.children = .ok fs) :
      ∃ vs, I.meanings? arg.children = some vs ∧ I.codeMeanings? fs = some vs :=
    I.meanings?_sequenceItems hfs fun item hitem =>
      below item (Element.mem_descendants_of_mem_children_children harg hitem)
  cases h with
  | real kind | id kind | imag kind =>
    exact ⟨_, by rw [meaning?_eq, kind], by rw [codeMeaning?]⟩
  | nothing kind children =>
    exact ⟨I.empty, by rw [meaning?_eq]; simp only [kind, children], by rw [codeMeaning?]⟩
  | parens kind children operand ok =>
    obtain ⟨v, hv, hv'⟩ := child (by simp [children]) ok
    exact ⟨v, by rw [meaning?_eq]; simp only [kind, children, hv], hv'⟩
  | sequence kind ok =>
    obtain ⟨vs, hvs, hvs'⟩ := I.meanings?_sequenceItems ok fun item hitem _ => child hitem
    exact ⟨I.tuple vs, by rw [meaning?_eq]; simp [kind, hvs], by simp [codeMeaning?, hvs']⟩
  | @named head arg kind children function operand =>
    have hv : I.meaning? arg = some (I.atom (identifier arg)) := by rw [meaning?_eq, operand]
    refine ⟨_, ?_, I.codeMeaning?_callOf _ (I.codeMeanings?_single (by rw [codeMeaning?]))⟩
    unfold namedOperand
    split
    · next isE =>
      rw [meaning?_eq]
      simp [kind, children, function, operand, isE]
    · next notE =>
      exact I.meaning?_of_call kind children function (by simp [operand])
        (fun h => notE ⟨h.1, h.2.2⟩) hv
  | called kind children function operand ok =>
    obtain ⟨v, hv, hv'⟩ := child (by simp [children]) ok
    refine ⟨_, I.meaning?_of_call kind children function ?_ ?_ hv,
      I.codeMeaning?_callOf _ (I.codeMeanings?_single hv')⟩
    · rcases operand with operand | operand <;> simp [operand]
    · rcases operand with operand | operand <;> simp [operand]
  | chosen kind children function operand isIf ok =>
    obtain ⟨vs, hvs, hvs'⟩ := items (by simp [children]) ok
    simp only [codeMeanings?, bind, Option.bind_eq_some_iff, Option.some.injEq] at hvs'
    obtain ⟨c, hc, _, ⟨t, ht, _, ⟨u, hu, _, rfl, rfl⟩, rfl⟩, rfl⟩ := hvs'
    refine ⟨I.choice c t u, ?_, by simp [codeMeaning?, hc, ht, hu]⟩
    rw [I.meaning?_of_items kind children function operand hvs, isIf, applied?, if_pos rfl]
  | listed kind children function operand notIf ok =>
    obtain ⟨vs, hvs, hvs'⟩ := items (by simp [children]) ok
    refine ⟨_, ?_, I.codeMeaning?_callOf _ hvs'⟩
    rw [I.meaning?_of_items kind children function operand hvs, I.applied?_of_ne notIf]
  | builtin kind children function operand ok =>
    refine I.agrees_unary kind children (I.unary?_of_builtin? function)
      (child (by simp [children]) ok) fun v hv => ?_
    exact I.codeMeaning?_callOf _ (I.codeMeanings?_single hv)
  | nameOnly kind children function operand =>
    refine I.agrees_unary kind children (I.unary?_of_nameOnly? function)
      (child (by simp [children]) (value_of_id operand)) fun v hv => ?_
    exact I.codeMeaning?_callOf _ (I.codeMeanings?_single hv)
  | negated kind children function operand ok =>
    refine I.agrees_unary kind children (by rw [function, unary?])
      (child (by simp [children]) ok) fun v hv => ?_
    simp [codeMeaning?, hv]
  | sum kind children function left right =>
    refine I.agrees_binary kind children (by rw [function, binary?])
      (child (by simp [children]) left) (child (by simp [children]) right) fun v w hv hw => ?_
    exact I.codeMeaning?_sumOf _ _ hv hw
  | operation kind children function notPlus left right =>
    refine I.agrees_binary kind children (by rw [function, binary?])
      (child (by simp [children]) left) (child (by simp [children]) right) fun v w hv hw => ?_
    exact I.codeMeaning?_binary _ hv hw
  | root kind children function left right =>
    refine I.agrees_binary kind children (by rw [function, binary?])
      (child (by simp [children]) left) (child (by simp [children]) right) fun v w hv hw => ?_
    have exponent := I.codeMeaning?_binary .div (f := .atom "1.0") (by rw [codeMeaning?]) hv
    exact I.codeMeaning?_callOf _ (I.codeMeanings?_pair hw exponent)
  | power kind children function left right =>
    refine I.agrees_binary kind children (by rw [function, binary?])
      (child (by simp [children]) left) (child (by simp [children]) right) fun v w hv hw => ?_
    exact I.codeMeaning?_callOf _ (I.codeMeanings?_pair hv hw)
  | indexed kind children function left right =>
    refine I.agrees_binary kind children (by rw [function, binary?])
      (child (by simp [children]) left) (child (by simp [children]) right) fun v w hv hw => ?_
    simp [codeMeaning?, hv, hw]

end Interpretation

/-- Generated code means what the worksheet means: under every interpretation, an element that has
code has a meaning, and its code has the same one. -/
theorem exists_meaning_of_value {V : Type u} (I : Interpretation V) {e : Element} {f : Fragment}
    (h : value e = .ok f) : ∃ v, I.meaning? e = some v ∧ I.codeMeaning? f = some v := by
  induction e using Element.inductionBelow generalizing f with
  | step e below =>
    exact I.agrees_of_valueRule (fun d hd g hg => below d hd hg) (value_eq_ok_iff.1 h)

/-- An element of the vocabulary of mathematics. -/
def mathElement (localName text : String) (children : List Element) : Element :=
  .mk (.bound Vocabulary.math.uri localName) .empty text children

/-- `3i * b` plus the cube root of `x`, the imaginary part first. -/
def complexSum : Element :=
  mathElement "apply" "" [mathElement "plus" "" [],
    mathElement "apply" "" [mathElement "mult" "" [], mathElement "imag" "3" [],
      mathElement "id" "b" []],
    mathElement "apply" "" [mathElement "nthRoot" "" [], mathElement "real" "3" [],
      mathElement "id" "x" []]]

/-- The code of `complexSum`, in which the imaginary part stands last. -/
def complexSumCode : Fragment :=
  .complex (callOf "Math.Pow" [.atom "x", .binary "/" (.atom "1.0") (.atom "3")])
    (.binary "*" (.atom "3i") (.atom "b"))

/-- Whole numbers, with the length of a text for its value. -/
def lengths : Interpretation Int where
  operation
    | .plus, a, b => a + b
    | .mult, a, b => a * b
    | .div, a, b => 100 * a / b
    | _, a, b => a - b
  plus_comm := Int.add_comm
  index a b := a - b
  choice c t u := if c = 0 then u else t
  function name xs := name.length + 2 * xs.headD 0 - xs.length
  atom text := text.length
  tuple := List.foldl (· - ·) 0
  empty := 0

theorem exists_meaning_complexSum :
    value complexSum = .ok complexSumCode ∧
    ∃ v, lengths.meaning? complexSum = some v ∧ lengths.codeMeaning? complexSumCode = some v :=
  ⟨rfl, exists_meaning_of_value lengths rfl⟩

end Code

end Calcsheet
