import Calcsheet.Proofs.Code.Value
import Calcsheet.Proofs.Element

/-!
# Elements that take each other's place

Two runs of the code generator agree if both give related results, or if both give up, at places
that look the same to an observer (`Agree`). Steps in a row agree if each of them does. What an
expression needs to know of its operands is little: the kind, the name of an identifier, whether
there is an imaginary number, and the fragment (`SameUse`). Exchanging operands that are the same in
this gives runs that agree (`agree_value`).
-/

namespace Calcsheet.Code

/-! ## Two runs -/

section Agree

variable {α β γ δ σ : Type} {view : Position → σ}

/-- Both runs give results in the relation, or both give up at places that look the same. -/
inductive Agree (view : Position → σ) (R : α → β → Prop) :
    Except Unsupported α → Except Unsupported β → Prop
  | ok {a b} (related : R a b) : Agree view R (.ok a) (.ok b)
  | error {u v} (places : view u.position = view v.position) : Agree view R (.error u) (.error v)

theorem agree_unsupported (R : α → β → Prop) (position : Position) (e e' : Element) :
    Agree view R (unsupported position e) (unsupported position e') :=
  .error rfl

theorem Agree.bind {R : α → β → Prop} {S : γ → δ → Prop} {x : Except Unsupported α}
    {y : Except Unsupported β} {f : α → Except Unsupported γ} {g : β → Except Unsupported δ}
    (first : Agree view R x y) (next : ∀ a b, R a b → Agree view S (f a) (g b)) :
    Agree view S (x >>= f) (y >>= g) := by
  cases first with
  | ok related => exact next _ _ related
  | error places => exact .error places

/-- After steps that give the same, the rest decides. -/
theorem Agree.bind_same {S : γ → δ → Prop} {x y : Except Unsupported α}
    {f : α → Except Unsupported γ} {g : α → Except Unsupported δ} (first : Agree view Eq x y)
    (next : ∀ a, Agree view S (f a) (g a)) : Agree view S (x >>= f) (y >>= g) :=
  first.bind fun a _ same => same ▸ next a

/-- Two walks agree if they are equally long and each two steps agree. -/
theorem agree_walk {R : γ → γ → Prop} {S : β → β → Prop} {join : β → γ → γ} {start : γ}
    (step : α → Except Unsupported β) (walk : List α → Except Unsupported γ)
    (nil : walk [] = .ok start)
    (cons : ∀ a rest, walk (a :: rest) = do
      let b ← step a
      let c ← walk rest
      .ok (join b c))
    (initial : R start start) (joined : ∀ b b' c c', S b b' → R c c' → R (join b c) (join b' c'))
    {as as' : List α} (each : List.Forall₂ (fun a a' => Agree view S (step a) (step a')) as as') :
    Agree view R (walk as) (walk as') := by
  induction each with
  | nil =>
    rw [nil]
    exact .ok initial
  | cons first _ others =>
    rw [cons, cons]
    exact first.bind fun b b' hb => others.bind fun c c' hc => .ok (joined b b' c c' hb hc)

end Agree

/-! ## Operands -/

variable {σ : Type} {view : Position → σ}

/-- A relation of children follows from another one that implies it below the element. -/
theorem forall₂_children {R S : Element → Element → Prop} {e e' : Element}
    (below : ∀ d ∈ e.descendants, ∀ {d'}, R d d' → S d d')
    (h : List.Forall₂ R e.children e'.children) : List.Forall₂ S e.children e'.children := by
  have inside : ∀ c ∈ e.children, ∀ {c'}, R c c' → S c c' := fun c hc =>
    below c (Element.mem_descendants_of_mem_children hc)
  exact ((List.forall₂_and_left _ _).2 ⟨inside, h⟩).imp fun _ _ ⟨implied, related⟩ => implied related

/-- One element can stand in the place of the other in an expression. -/
structure SameUse (view : Position → σ) (e e' : Element) : Prop where
  kind : e.kind = e'.kind
  name : e.kind = .id → identifier e = identifier e'
  imaginary : hasImaginary e = hasImaginary e'
  value : Agree view Eq (value e) (value e')

theorem hasImaginary_eq (e : Element) :
    hasImaginary e = e.children.any fun c => decide (c.kind = .imag) || hasImaginary c := by
  rw [hasImaginary, Element.descendants_eq]
  induction e.children with
  | nil => rfl
  | cons c rest ih =>
    rw [Element.subtrees, List.any_cons, List.any_append, ih, List.any_cons, Bool.or_assoc,
      hasImaginary]

theorem hasImaginary_congr {e e' : Element}
    (children : List.Forall₂ (SameUse view) e.children e'.children) :
    hasImaginary e = hasImaginary e' := by
  rw [hasImaginary_eq, hasImaginary_eq e']
  generalize e.children = cs at children
  generalize e'.children = cs' at children
  induction children with
  | nil => rfl
  | cons first _ ih => rw [List.any_cons, List.any_cons, first.kind, first.imaginary, ih]

theorem sumOf_congr {lhs lhs' rhs rhs' : Element} (left : SameUse view lhs lhs')
    (right : SameUse view rhs rhs') : sumOf lhs rhs = sumOf lhs' rhs' := by
  funext a b
  rw [sumOf, sumOf, left.kind, left.imaginary, right.kind, right.imaginary]

theorem binaryRule?_congr {head head' lhs lhs' rhs rhs' : Element} (function : head.kind = head'.kind)
    (left : SameUse view lhs lhs') (right : SameUse view rhs rhs') :
    binaryRule? head lhs rhs = binaryRule? head' lhs' rhs' := by
  rw [binaryRule?, binaryRule?, function, sumOf_congr left right]

theorem agree_conditionalOf (sequence sequence' : Element) (items : List Fragment) :
    Agree view Eq (conditionalOf sequence items) (conditionalOf sequence' items) := by
  unfold conditionalOf
  split
  · exact .ok rfl
  · exact agree_unsupported _ _ _ _

theorem unaryRule?_rel {head head' arg arg' : Element} (function : SameUse view head head')
    (operand : SameUse view arg arg') :
    Option.Rel (fun rule rule' => ∀ f, Agree view Eq (rule f) (rule' f)) (unaryRule? head arg)
      (unaryRule? head' arg') := by
  unfold unaryRule?
  rw [← function.kind, ← operand.kind]
  split
  case h_1 hhead harg =>
    refine .some fun f => ?_
    rw [function.name hhead, operand.name harg]
    exact .ok rfl
  case h_2 hhead _ | h_3 hhead _ =>
    refine .some fun f => ?_
    rw [function.name hhead]
    exact .ok rfl
  case h_4 hhead _ =>
    refine .some fun f => ?_
    rw [function.name hhead]
    split
    · exact agree_conditionalOf arg arg' f.items
    · exact .ok rfl
  case h_13 => exact .none
  all_goals exact .some fun f => .ok rfl

theorem agree_sequenceItems {items items' : List Element}
    (each : List.Forall₂ (SameUse view) items items') :
    Agree view Eq (sequenceItems items) (sequenceItems items') := by
  induction each with
  | nil =>
    rw [sequenceItems]
    exact .ok rfl
  | cons first _ others =>
    rw [sequenceItems, sequenceItems, ← first.kind]
    split
    · exact first.value.bind_same fun f => others.bind_same fun fs => .ok rfl
    · exact agree_unsupported _ _ _ _

section Value

variable {e e' : Element} (children : List.Forall₂ (SameUse view) e.children e'.children)

include children

theorem agree_value_of_apply (kind : e.kind = .apply) (kind' : e'.kind = .apply) :
    Agree view Eq (value e) (value e') := by
  rw [value_eq, value_eq e', kind, kind']
  dsimp only
  generalize e.children = cs at children
  generalize e'.children = cs' at children
  rcases children with _ | ⟨head, _ | ⟨arg, _ | ⟨rhs, _ | _⟩⟩⟩
  · exact .ok rfl
  · exact agree_unsupported _ _ _ _
  · have rules := unaryRule?_rel head arg
    dsimp only
    generalize unaryRule? _ _ = rule? at rules
    generalize unaryRule? _ _ = rule'? at rules
    cases rules with
    | none => exact agree_unsupported _ _ _ _
    | some rules => exact arg.value.bind_same rules
  · dsimp only
    rw [binaryRule?_congr head.kind arg rhs]
    split
    · exact arg.value.bind_same fun a => rhs.value.bind_same fun b => .ok rfl
    · exact agree_unsupported _ _ _ _
  · exact agree_unsupported _ _ _ _

theorem agree_value_of_parens (kind : e.kind = .parens) (kind' : e'.kind = .parens) :
    Agree view Eq (value e) (value e') := by
  rw [value_eq, value_eq e', kind, kind']
  dsimp only
  generalize e.children = cs at children
  generalize e'.children = cs' at children
  rcases children with _ | ⟨inner, _ | _⟩
  · exact agree_unsupported _ _ _ _
  · dsimp only
    rw [← inner.kind]
    split
    · exact inner.value
    · exact agree_unsupported _ _ _ _
  · exact agree_unsupported _ _ _ _

/-- The fragment of an element depends on its kind, on its text if it is a number, on its name if it
is an identifier, and on what its children are good for. -/
theorem agree_value (kind : e.kind = e'.kind)
    (text : e.kind = .real ∨ e.kind = .imag → e.text = e'.text)
    (name : e.kind = .id → identifier e = identifier e') : Agree view Eq (value e) (value e') := by
  by_cases apply : e.kind = .apply
  · exact agree_value_of_apply children apply (kind ▸ apply)
  by_cases parens : e.kind = .parens
  · exact agree_value_of_parens children parens (kind ▸ parens)
  rw [value_eq, value_eq e', ← kind]
  split
  case h_1 kind | h_3 kind =>
    rw [text (by simp [kind])]
    exact .ok rfl
  case h_2 kind =>
    rw [name kind]
    exact .ok rfl
  case h_4 kind => exact absurd kind apply
  case h_5 kind => exact absurd kind parens
  case h_6 kind => exact (agree_sequenceItems children).bind_same fun fs => .ok rfl
  case h_7 => exact agree_unsupported _ _ _ _

/-- Elements that have the same kind, text and name can stand in each other's place if that is so
of their children. -/
theorem SameUse.of_children (kind : e.kind = e'.kind)
    (text : e.kind = .real ∨ e.kind = .imag → e.text = e'.text)
    (name : e.kind = .id → identifier e = identifier e') : SameUse view e e' :=
  ⟨kind, name, hasImaginary_congr children, agree_value children kind text name⟩

end Value

end Calcsheet.Code
