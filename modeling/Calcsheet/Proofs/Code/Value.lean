import Calcsheet.Code.Expression
import Calcsheet.Proofs.Except
import Mathlib.Data.List.Forall2

/-!
# What gives an expression

`ValueRule e f` says that one rule gives the fragment `f` for the element `e`, from the fragments of
its operands. There is a constructor for each rule, and `value_eq_ok_iff` says that these are all:
`value e = .ok f` holds exactly if one of them applies. Facts about generated expressions are proved
by cases on the rule, never by opening `value`.
-/

namespace Calcsheet

namespace Code

theorem unsupported_ne_ok {α : Type} (position : Position) (e : Element) (a : α) :
    unsupported position e ≠ .ok a := by
  simp [unsupported]

/-! ## Sequences -/

theorem sequenceItems_eq_ok_iff {items : List Element} {fs : List Fragment} :
    sequenceItems items = .ok fs ↔
      List.Forall₂ (fun item f => isOperandKind item.kind = true ∧ value item = .ok f) items
        fs := by
  induction items generalizing fs with
  | nil =>
    rw [sequenceItems]
    cases fs <;> simp
  | cons item rest ih =>
    rw [sequenceItems]
    split
    · next hk =>
      simp only [bind_eq_ok_iff, ih, List.forall₂_cons_left_iff, Except.ok.injEq]
      constructor
      · rintro ⟨f, hf, fs', hfs, rfl⟩
        exact ⟨f, fs', ⟨hk, hf⟩, hfs, rfl⟩
      · rintro ⟨f, fs', ⟨-, hf⟩, hfs, rfl⟩
        exact ⟨f, hf, fs', hfs, rfl⟩
    · next hk => simp [unsupported, List.forall₂_cons_left_iff, hk]

theorem exists_sequenceItems_iff {items : List Element} :
    (∃ fs, sequenceItems items = .ok fs) ↔
      ∀ item ∈ items, isOperandKind item.kind = true ∧ ∃ f, value item = .ok f := by
  simp only [sequenceItems_eq_ok_iff]
  induction items with
  | nil => simp
  | cons item rest ih =>
    simp only [List.forall_mem_cons, ← ih, List.forall₂_cons_left_iff]
    constructor
    · rintro ⟨_, f, fs, ⟨operand, hf⟩, hfs, -⟩
      exact ⟨⟨operand, f, hf⟩, fs, hfs⟩
    · rintro ⟨⟨operand, f, hf⟩, fs, hfs⟩
      exact ⟨f :: fs, f, fs, ⟨operand, hf⟩, hfs, rfl⟩

theorem length_sequenceItems {items : List Element} {fs : List Fragment}
    (h : sequenceItems items = .ok fs) : fs.length = items.length :=
  (sequenceItems_eq_ok_iff.1 h).length_eq.symm

theorem sequenceItems_induction {P : Fragment → Prop} {items : List Element} {fs : List Fragment}
    (each : ∀ e ∈ items, ∀ f, isOperandKind e.kind = true → value e = .ok f → P f)
    (h : sequenceItems items = .ok fs) : ∀ f ∈ fs, P f := by
  rw [sequenceItems_eq_ok_iff] at h
  induction h with
  | nil => simp
  | cons first _ ih =>
    obtain ⟨now, later⟩ := List.forall_mem_cons.1 each
    exact List.forall_mem_cons.2 ⟨now _ first.1 first.2, ih later⟩

/-- What holds of each item with its fragment and `++` keeps, holds of all items with theirs. -/
theorem sequenceItems_pairing {P : List Element → List Fragment → Prop} (nil : P [] [])
    (append : ∀ {es es' fs fs'}, P es fs → P es' fs' → P (es ++ es') (fs ++ fs'))
    {items : List Element} {fs : List Fragment}
    (each : ∀ e ∈ items, ∀ f, value e = .ok f → P [e] [f]) (h : sequenceItems items = .ok fs) :
    P items fs := by
  rw [sequenceItems_eq_ok_iff] at h
  induction h with
  | nil => exact nil
  | cons first _ ih =>
    obtain ⟨now, later⟩ := List.forall_mem_cons.1 each
    exact append (now _ first.2) (ih later)

/-! ## The equation of a value -/

theorem value_eq (e : Element) :
    value e = match e.kind with
      | .real => .ok (.atom e.text)
      | .id => .ok (.atom (identifier e))
      | .imag => .ok (.atom (e.text ++ "i"))
      | .apply =>
        match e.children with
        | [] => .ok .empty
        | [head, arg] =>
          match unaryRule? head arg with
          | some rule => value arg >>= rule
          | none => unsupported .apply e
        | [head, lhs, rhs] =>
          match binaryRule? head lhs rhs with
          | some rule => do .ok (rule (← value lhs) (← value rhs))
          | none => unsupported .apply e
        | _ => unsupported .apply e
      | .parens =>
        match e.children with
        | [inner] => if isOperandKind inner.kind then value inner else unsupported .parens e
        | _ => unsupported .parens e
      | .sequence => do .ok (.list (← sequenceItems e.children))
      | _ => unsupported .value e := by
  cases e with
  | mk name attributes text children =>
    rw [value.eq_def]
    rfl

/-! ## Applied expressions are single expressions -/

/-- The fragment is one expression, not several with commas between them. -/
def Fragment.IsSingle : Fragment → Prop
  | .list _ => False
  | _ => True

theorem Fragment.IsSingle.parts {f : Fragment} (h : f.IsSingle) : f.parts = [f] := by
  cases f with
  | list items => exact h.elim
  | _ => rfl

theorem Fragment.parts_list {fs : List Fragment} (h : ∀ f ∈ fs, f.IsSingle) :
    (Fragment.list fs).parts = fs := by
  rw [Fragment.parts]
  induction fs with
  | nil => rfl
  | cons f rest ih =>
    rw [Fragment.partsOfList, (h f (by simp)).parts, ih fun g hg => h g (by simp [hg])]
    rfl

theorem conditionalOf_eq_ok_iff {sequence : Element} {fs : List Fragment} {f : Fragment}
    (single : ∀ g ∈ fs, g.IsSingle) :
    conditionalOf sequence fs = .ok f ↔ ∃ c t u, fs = [c, t, u] ∧ f = .conditional c t u := by
  rw [conditionalOf, Fragment.parts_list single]
  split
  · next c t u => simp [eq_comm]
  · next h =>
    refine iff_of_false (unsupported_ne_ok _ _ _) ?_
    rintro ⟨c, t, u, rfl, -⟩
    exact h c t u rfl

theorem isSingle_unary {head arg : Element} {rule : Fragment → Except Unsupported Fragment}
    {a f : Fragment} (hrule : unaryRule? head arg = some rule) (h : rule a = .ok f) :
    f.IsSingle := by
  unfold unaryRule? at hrule
  split at hrule <;> cases hrule
  case h_4 =>
    simp only [conditionalOf] at h
    split at h
    · split at h <;> cases h
      trivial
    · cases h
      trivial
  all_goals
    cases h
    trivial

theorem isSingle_binary {head lhs rhs : Element} {rule : Fragment → Fragment → Fragment}
    (hrule : binaryRule? head lhs rhs = some rule) (a b : Fragment) : (rule a b).IsSingle := by
  unfold binaryRule? at hrule
  split at hrule <;> cases hrule
  case h_1 =>
    unfold sumOf
    split
    · split <;> trivial
    · trivial
  all_goals trivial

theorem isSingle_value {e : Element} {f : Fragment} (h : value e = .ok f)
    (operand : isOperandKind e.kind = true) : f.IsSingle := by
  rw [value_eq] at h
  split at h
  · cases h
    trivial
  · cases h
    trivial
  · cases h
    trivial
  · split at h
    · cases h
      trivial
    · split at h
      · next hrule =>
        obtain ⟨a, -, hf⟩ := bind_eq_ok_iff.1 h
        exact isSingle_unary hrule hf
      · cases h
    · split at h
      · next hrule =>
        simp only [bind_eq_ok_iff, Except.ok.injEq] at h
        obtain ⟨a, -, b, -, rfl⟩ := h
        exact isSingle_binary hrule a b
      · cases h
    · cases h
  · next kind => simp [kind, isOperandKind] at operand
  · next kind => simp [kind, isOperandKind] at operand
  · cases h

theorem isSingle_sequenceItems {items : List Element} {fs : List Fragment}
    (h : sequenceItems items = .ok fs) : ∀ f ∈ fs, f.IsSingle :=
  sequenceItems_induction (fun _ _ _ kind ok => isSingle_value ok kind) h

/-! ## Rules -/

/-- The function for an operator that is written as a call of one argument. -/
def builtin? : Kind → Option String
  | .sqrt => some "Math.Sqrt"
  | .absVal => some "Math.Abs"
  | _ => none

/-- The function for an operator on a single name. -/
def nameOnly? : Kind → Option String
  | .find => some "Solve"
  | .vectorSum => some "Vector.Sum"
  | _ => none

/-- One rule gives the fragment for the element from those of its operands. -/
inductive ValueRule : Element → Fragment → Prop
  | real {e} (kind : e.kind = .real) : ValueRule e (.atom e.text)
  | id {e} (kind : e.kind = .id) : ValueRule e (.atom (identifier e))
  | imag {e} (kind : e.kind = .imag) : ValueRule e (.atom (e.text ++ "i"))
  | parens {e inner f} (kind : e.kind = .parens) (children : e.children = [inner])
      (operand : isOperandKind inner.kind = true) (ok : value inner = .ok f) : ValueRule e f
  | sequence {e fs} (kind : e.kind = .sequence) (ok : sequenceItems e.children = .ok fs) :
      ValueRule e (.list fs)
  | nothing {e} (kind : e.kind = .apply) (children : e.children = []) : ValueRule e .empty
  /-- A function of a name. -/
  | named {e head arg} (kind : e.kind = .apply) (children : e.children = [head, arg])
      (function : head.kind = .id) (operand : arg.kind = .id) :
      ValueRule e (callOf (identifier head)
        [.atom (namedOperand (identifier head) (identifier arg))])
  /-- A function of a number or an applied expression. -/
  | called {e head arg a} (kind : e.kind = .apply) (children : e.children = [head, arg])
      (function : head.kind = .id) (operand : arg.kind = .real ∨ arg.kind = .apply)
      (ok : value arg = .ok a) : ValueRule e (callOf (identifier head) [a])
  /-- A choice between two alternatives. -/
  | chosen {e head arg c t u} (kind : e.kind = .apply) (children : e.children = [head, arg])
      (function : head.kind = .id) (operand : arg.kind = .sequence) (isIf : identifier head = "if")
      (ok : sequenceItems arg.children = .ok [c, t, u]) : ValueRule e (.conditional c t u)
  /-- A function of several arguments. -/
  | listed {e head arg fs} (kind : e.kind = .apply) (children : e.children = [head, arg])
      (function : head.kind = .id) (operand : arg.kind = .sequence)
      (notIf : identifier head ≠ "if") (ok : sequenceItems arg.children = .ok fs) :
      ValueRule e (callOf (identifier head) fs)
  | builtin {e head arg name a} (kind : e.kind = .apply) (children : e.children = [head, arg])
      (function : builtin? head.kind = some name) (operand : arg.kind = .apply ∨ arg.kind = .id)
      (ok : value arg = .ok a) : ValueRule e (callOf name [a])
  | nameOnly {e head arg name} (kind : e.kind = .apply) (children : e.children = [head, arg])
      (function : nameOnly? head.kind = some name) (operand : arg.kind = .id) :
      ValueRule e (callOf name [.atom (identifier arg)])
  | negated {e head arg a} (kind : e.kind = .apply) (children : e.children = [head, arg])
      (function : head.kind = .neg) (operand : arg.kind = .apply ∨ arg.kind = .id)
      (ok : value arg = .ok a) : ValueRule e (.negate a)
  | sum {e head lhs rhs a b} (kind : e.kind = .apply) (children : e.children = [head, lhs, rhs])
      (function : head.kind = .binary .plus) (left : value lhs = .ok a)
      (right : value rhs = .ok b) : ValueRule e (sumOf lhs rhs a b)
  | operation {e head lhs rhs op a b} (kind : e.kind = .apply)
      (children : e.children = [head, lhs, rhs])
      (function : head.kind = .binary op) (notPlus : op ≠ .plus) (left : value lhs = .ok a)
      (right : value rhs = .ok b) : ValueRule e (.binary op.symbol a b)
  | root {e head lhs rhs a b} (kind : e.kind = .apply) (children : e.children = [head, lhs, rhs])
      (function : head.kind = .nthRoot) (left : value lhs = .ok a) (right : value rhs = .ok b) :
      ValueRule e (callOf "Math.Pow" [b, .binary BinaryOp.div.symbol (.atom "1.0") a])
  | power {e head lhs rhs a b} (kind : e.kind = .apply) (children : e.children = [head, lhs, rhs])
      (function : head.kind = .pow) (left : value lhs = .ok a) (right : value rhs = .ok b) :
      ValueRule e (callOf "Math.Pow" [a, b])
  | indexed {e head lhs rhs a b} (kind : e.kind = .apply) (children : e.children = [head, lhs, rhs])
      (function : head.kind = .indexer) (left : value lhs = .ok a) (right : value rhs = .ok b) :
      ValueRule e (.group (.index a b))

theorem value_of_id {e : Element} (kind : e.kind = .id) : value e = .ok (.atom (identifier e)) := by
  rw [value_eq, kind]

theorem value_sequence_eq_bind {e : Element} (kind : e.kind = .sequence) :
    value e = sequenceItems e.children >>= fun fs => .ok (.list fs) := by
  rw [value_eq, kind]

theorem value_of_sequence {e : Element} {fs : List Fragment} (kind : e.kind = .sequence)
    (ok : sequenceItems e.children = .ok fs) : value e = .ok (.list fs) := by
  rw [value_sequence_eq_bind kind, ok]
  rfl

theorem sequenceItems_of_value {e : Element} {f : Fragment} (kind : e.kind = .sequence)
    (h : value e = .ok f) : ∃ fs, sequenceItems e.children = .ok fs ∧ f = .list fs := by
  rw [value_sequence_eq_bind kind, bind_eq_ok_iff] at h
  obtain ⟨fs, hfs, same⟩ := h
  exact ⟨fs, hfs, (Except.ok.inj same).symm⟩

/-- A sequence is refused where one of its items is. -/
theorem value_sequence_eq_error_iff {e : Element} (kind : e.kind = .sequence) {u : Unsupported} :
    value e = .error u ↔ sequenceItems e.children = .error u := by
  rw [value_sequence_eq_bind kind]
  cases sequenceItems e.children <;> simp [bind, Except.bind]

namespace ValueRule

variable {e head arg lhs rhs : Element} {a b f : Fragment}

theorem of_unary {rule : Fragment → Except Unsupported Fragment} (kind : e.kind = .apply)
    (children : e.children = [head, arg]) (hrule : unaryRule? head arg = some rule)
    (ha : value arg = .ok a) (hf : rule a = .ok f) : ValueRule e f := by
  unfold unaryRule? at hrule
  split at hrule <;> cases hrule
  case h_1 hhead harg =>
    cases hf
    exact .named kind children hhead harg
  case h_2 hhead harg | h_3 hhead harg =>
    cases hf
    exact .called kind children hhead (by simp [harg]) ha
  case h_4 hhead harg =>
    obtain ⟨fs, hfs, rfl⟩ := sequenceItems_of_value harg ha
    simp only [Fragment.items] at hf
    split at hf
    · next isIf =>
      obtain ⟨c, t, u, rfl, rfl⟩ := (conditionalOf_eq_ok_iff (isSingle_sequenceItems hfs)).1 hf
      exact .chosen kind children hhead harg isIf hfs
    · next notIf =>
      cases hf
      exact .listed kind children hhead harg notIf hfs
  -- square roots and absolute values
  case h_5 hhead harg | h_6 hhead harg | h_7 hhead harg | h_8 hhead harg =>
    cases hf
    exact .builtin kind children (by rw [hhead]; rfl) (by simp [harg]) ha
  case h_9 hhead harg | h_10 hhead harg =>
    cases hf
    exact .negated kind children hhead (by simp [harg]) ha
  -- operators on a name, which is its own fragment
  case h_11 hhead harg | h_12 hhead harg =>
    rw [value_of_id harg] at ha
    cases ha
    cases hf
    exact .nameOnly kind children (by rw [hhead]; rfl) harg

theorem of_binary {rule : Fragment → Fragment → Fragment} (kind : e.kind = .apply)
    (children : e.children = [head, lhs, rhs]) (hrule : binaryRule? head lhs rhs = some rule)
    (ha : value lhs = .ok a) (hb : value rhs = .ok b) : ValueRule e (rule a b) := by
  unfold binaryRule? at hrule
  split at hrule <;> cases hrule
  · next hhead => exact .sum kind children hhead ha hb
  · next notPlus hhead => exact .operation kind children hhead notPlus ha hb
  · next hhead => exact .root kind children hhead ha hb
  · next hhead => exact .power kind children hhead ha hb
  · next hhead => exact .indexed kind children hhead ha hb

theorem of_value (h : value e = .ok f) : ValueRule e f := by
  rw [value_eq] at h
  split at h
  · next kind =>
    cases h
    exact .real kind
  · next kind =>
    cases h
    exact .id kind
  · next kind =>
    cases h
    exact .imag kind
  · next kind =>
    split at h
    · next children =>
      cases h
      exact .nothing kind children
    · next children =>
      split at h
      · next hrule =>
        obtain ⟨a, ha, hf⟩ := bind_eq_ok_iff.1 h
        exact of_unary kind children hrule ha hf
      · cases h
    · next children =>
      split at h
      · next hrule =>
        simp only [bind_eq_ok_iff, Except.ok.injEq] at h
        obtain ⟨a, ha, b, hb, rfl⟩ := h
        exact of_binary kind children hrule ha hb
      · cases h
    · cases h
  · next kind =>
    split at h
    · next children =>
      split at h
      · next operand => exact .parens kind children operand h
      · cases h
    · cases h
  · next kind =>
    simp only [bind_eq_ok_iff, Except.ok.injEq] at h
    obtain ⟨fs, hfs, rfl⟩ := h
    exact .sequence kind hfs
  · cases h

theorem value (h : ValueRule e f) : value e = .ok f := by
  rw [value_eq]
  cases h with
  | real kind | id kind | imag kind => rw [kind]
  | nothing kind children => simp only [kind, children]
  | parens kind children operand ok => simp only [kind, children, operand, if_true, ok]
  | sequence kind ok => simp only [kind, ok, bind, Except.bind]
  | named kind children function operand =>
    simp only [kind, children, unaryRule?, function, operand, value_of_id operand, bind,
      Except.bind]
  | called kind children function operand ok | negated kind children function operand ok =>
    rcases operand with operand | operand <;>
      simp only [kind, children, unaryRule?, function, operand, ok, bind, Except.bind]
  | chosen kind children function operand isIf ok =>
    simp only [kind, children, unaryRule?, function, operand, value_of_sequence operand ok, bind,
      Except.bind, isIf, if_true, Fragment.items]
    exact (conditionalOf_eq_ok_iff (isSingle_sequenceItems ok)).2 ⟨_, _, _, rfl, rfl⟩
  | listed kind children function operand notIf ok =>
    simp only [kind, children, unaryRule?, function, operand, value_of_sequence operand ok, bind,
      Except.bind, notIf, if_false, Fragment.items]
  | builtin kind children function operand ok =>
    unfold builtin? at function
    split at function <;> cases function <;> rcases operand with operand | operand <;>
      simp only [unaryRule?, bind, Except.bind, *]
  | nameOnly kind children function operand =>
    unfold nameOnly? at function
    split at function <;> cases function <;>
      simp only [unaryRule?, value_of_id operand, bind, Except.bind, *]
  | sum kind children function left right
  | root kind children function left right
  | power kind children function left right
  | indexed kind children function left right =>
    simp only [kind, children, binaryRule?, function, left, right, bind, Except.bind]
  | operation kind children function notPlus left right =>
    simp only [kind, children, binaryRule?, function, left, right, bind, Except.bind]

end ValueRule

/-- The rules are all there is to a value. -/
theorem value_eq_ok_iff {e : Element} {f : Fragment} : value e = .ok f ↔ ValueRule e f :=
  ⟨ValueRule.of_value, ValueRule.value⟩

end Code

end Calcsheet
