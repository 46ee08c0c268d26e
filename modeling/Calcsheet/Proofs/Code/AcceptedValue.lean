import Calcsheet.Proofs.Code.Language
import Calcsheet.Proofs.Code.Value
import Calcsheet.Proofs.Element

/-!
# Values that have code

There is code for a value exactly if the grammar has it (`exists_value_iff`): each rule that gives
a fragment is a case of the grammar, and each case has a rule, if that is so of all that is below.
-/

namespace Calcsheet.Code

/-! ## The grammar by kinds -/

section Kinds

variable {e : Element}

theorem GoodApply.kind (h : GoodApply e) : e.kind = .apply := by
  cases h <;> assumption

theorem GoodParens.kind (h : GoodParens e) : e.kind = .parens := by
  cases h
  assumption

theorem GoodSequence.kind (h : GoodSequence e) : e.kind = .sequence := by
  cases h
  assumption

theorem GoodValue.goodApply (h : GoodValue e) (kind : e.kind = .apply) : GoodApply e := by
  cases h with
  | apply good => exact good
  | real other | id other | imag other => simp [other] at kind
  | parens good | sequence good => simp [good.kind] at kind

theorem GoodValue.goodParens (h : GoodValue e) (kind : e.kind = .parens) : GoodParens e := by
  cases h with
  | parens good => exact good
  | real other | id other | imag other => simp [other] at kind
  | apply good | sequence good => simp [good.kind] at kind

end Kinds

/-! ## Values -/

theorem goodOperand_iff {e : Element} :
    GoodOperand e ↔ isOperandKind e.kind = true ∧ GoodValue e := by
  constructor
  · rintro (kind | kind | good)
    · exact ⟨by rw [kind]; rfl, .real kind⟩
    · exact ⟨by rw [kind]; rfl, .id kind⟩
    · exact ⟨by rw [good.kind]; rfl, .apply good⟩
  · rintro ⟨operand, good⟩
    cases good with
    | real kind => exact .real kind
    | id kind => exact .id kind
    | apply good => exact .apply good
    | imag kind => simp [kind, isOperandKind] at operand
    | parens good | sequence good => simp [good.kind, isOperandKind] at operand

theorem goodTarget_iff {e : Element} :
    GoodTarget e ↔ (e.kind = .apply ∨ e.kind = .id) ∧ GoodValue e := by
  constructor
  · rintro (kind | good)
    · exact ⟨.inr kind, .id kind⟩
    · exact ⟨.inl good.kind, .apply good⟩
  · rintro ⟨kind | kind, good⟩
    · exact .apply (good.goodApply kind)
    · exact .id kind

section Values

variable {e : Element} (below : ∀ d ∈ e.descendants, (∃ f, value d = .ok f) ↔ GoodValue d)

include below

theorem exists_sequenceItems_iff_goodSequence {arg : Element} (kind : arg.kind = .sequence)
    (harg : ∀ item ∈ arg.children, item ∈ e.descendants) :
    (∃ fs, sequenceItems arg.children = .ok fs) ↔ GoodSequence arg := by
  rw [exists_sequenceItems_iff]
  constructor
  · intro h
    refine .mk kind fun item mem => goodOperand_iff.2 ⟨(h item mem).1, ?_⟩
    exact (below item (harg item mem)).1 (h item mem).2
  · rintro ⟨-, good⟩ item mem
    obtain ⟨operand, value⟩ := goodOperand_iff.1 (good item mem)
    exact ⟨operand, (below item (harg item mem)).2 value⟩

theorem GoodValue.of_valueRule {f : Fragment} (h : ValueRule e f) : GoodValue e := by
  have child {c : Element} {f : Fragment} (mem : c ∈ e.children) (ok : value c = .ok f) :
      GoodValue c :=
    (below c (Element.mem_descendants_of_mem_children mem)).1 ⟨f, ok⟩
  have items {c : Element} {fs : List Fragment} (mem : c ∈ e.children)
      (kind : c.kind = .sequence) (ok : sequenceItems c.children = .ok fs) : GoodSequence c :=
    (exists_sequenceItems_iff_goodSequence below kind fun _ =>
      Element.mem_descendants_of_mem_children_children mem).1 ⟨fs, ok⟩
  cases h with
  | real kind => exact .real kind
  | id kind => exact .id kind
  | imag kind => exact .imag kind
  | parens kind children operand ok =>
    exact .parens (.mk kind children (goodOperand_iff.2 ⟨operand, child (by simp [children]) ok⟩))
  | sequence kind ok =>
    exact .sequence ((exists_sequenceItems_iff_goodSequence below kind fun _ =>
      Element.mem_descendants_of_mem_children).1 ⟨_, ok⟩)
  | nothing kind children => exact .apply (.nothing kind children)
  | named kind children function operand =>
    exact .apply (.call kind children function (.id operand))
  | called kind children function operand ok =>
    have good := child (by simp [children]) ok
    refine .apply (.call kind children function (goodOperand_iff.2 ⟨?_, good⟩))
    rcases operand with operand | operand <;> rw [operand] <;> rfl
  | chosen kind children function operand isIf ok =>
    refine .apply (.list kind children function (items (by simp [children]) operand ok) fun _ => ?_)
    exact (length_sequenceItems ok).symm
  | listed kind children function operand notIf ok =>
    exact .apply (.list kind children function (items (by simp [children]) operand ok)
      fun isIf => absurd isIf notIf)
  | builtin kind children function operand ok =>
    have good := child (by simp [children]) ok
    refine .apply (.monadic kind children ?_ (goodTarget_iff.2 ⟨operand, good⟩))
    unfold builtin? at function
    split at function <;> simp_all [isMonadic]
  | nameOnly kind children function operand =>
    refine .apply (.nominal kind children ?_ operand)
    unfold nameOnly? at function
    split at function <;> simp_all [isNominal]
  | negated kind children function operand ok =>
    exact .apply (.monadic kind children (by rw [function]; rfl)
      (goodTarget_iff.2 ⟨operand, child (by simp [children]) ok⟩))
  | sum kind children function left right
  | operation kind children function _ left right
  | root kind children function left right
  | power kind children function left right
  | indexed kind children function left right =>
    exact .apply (.dyadic kind children (by rw [function]; rfl) (child (by simp [children]) left)
      (child (by simp [children]) right))

theorem GoodApply.exists_valueRule (h : GoodApply e) : ∃ f, ValueRule e f := by
  have child {c : Element} (mem : c ∈ e.children) (good : GoodValue c) : ∃ f, value c = .ok f :=
    (below c (Element.mem_descendants_of_mem_children mem)).2 good
  cases h with
  | nothing kind children => exact ⟨_, .nothing kind children⟩
  | dyadic kind children function left right =>
    obtain ⟨a, ha⟩ := child (by simp [children]) left
    obtain ⟨b, hb⟩ := child (by simp [children]) right
    unfold isDyadic at function
    split at function
    · next op hhead =>
      by_cases plus : op = .plus
      · exact ⟨_, .sum kind children (plus ▸ hhead) ha hb⟩
      · exact ⟨_, .operation kind children hhead plus ha hb⟩
    · next hhead => exact ⟨_, .root kind children hhead ha hb⟩
    · next hhead => exact ⟨_, .power kind children hhead ha hb⟩
    · next hhead => exact ⟨_, .indexed kind children hhead ha hb⟩
    · cases function
  | call kind children function operand =>
    obtain ⟨a, ha⟩ := child (by simp [children]) (goodOperand_iff.1 operand).2
    cases operand with
    | real operand => exact ⟨_, .called kind children function (.inl operand) ha⟩
    | id operand => exact ⟨_, .named kind children function operand⟩
    | apply good => exact ⟨_, .called kind children function (.inr good.kind) ha⟩
  | @list _ head arg kind children function items three =>
    obtain ⟨fs, ok⟩ := (exists_sequenceItems_iff_goodSequence below items.kind fun _ =>
      Element.mem_descendants_of_mem_children_children (by simp [children])).2 items
    by_cases isIf : identifier head = "if"
    · obtain ⟨c, t, u, rfl⟩ := List.length_eq_three.1 ((length_sequenceItems ok).trans (three isIf))
      exact ⟨_, .chosen kind children function items.kind isIf ok⟩
    · exact ⟨_, .listed kind children function items.kind isIf ok⟩
  | monadic kind children function operand =>
    obtain ⟨operand, good⟩ := goodTarget_iff.1 operand
    obtain ⟨a, ha⟩ := child (by simp [children]) good
    unfold isMonadic at function
    split at function
    · next hhead => exact ⟨_, .builtin kind children (by rw [hhead]; rfl) operand ha⟩
    · next hhead => exact ⟨_, .builtin kind children (by rw [hhead]; rfl) operand ha⟩
    · next hhead => exact ⟨_, .negated kind children hhead operand ha⟩
    · cases function
  | nominal kind children function operand =>
    unfold isNominal at function
    split at function
    · next hhead => exact ⟨_, .nameOnly kind children (by rw [hhead]; rfl) operand⟩
    · next hhead => exact ⟨_, .nameOnly kind children (by rw [hhead]; rfl) operand⟩
    · cases function

theorem GoodValue.exists_valueRule (h : GoodValue e) : ∃ f, ValueRule e f := by
  cases h with
  | real kind => exact ⟨_, .real kind⟩
  | id kind => exact ⟨_, .id kind⟩
  | imag kind => exact ⟨_, .imag kind⟩
  | apply good => exact good.exists_valueRule below
  | parens good =>
    obtain @⟨_, inner, kind, children, operand⟩ := good
    obtain ⟨operand, good⟩ := goodOperand_iff.1 operand
    have mem : inner ∈ e.descendants := Element.mem_descendants_of_mem_children (by simp [children])
    obtain ⟨f, hf⟩ := (below inner mem).2 good
    exact ⟨f, .parens kind children operand hf⟩
  | sequence good =>
    obtain ⟨fs, ok⟩ := (exists_sequenceItems_iff_goodSequence below good.kind fun _ =>
      Element.mem_descendants_of_mem_children).2 good
    exact ⟨_, .sequence good.kind ok⟩

end Values

/-- There is code for exactly the elements that the grammar has as values. -/
theorem exists_value_iff (e : Element) : (∃ f, value e = .ok f) ↔ GoodValue e := by
  induction e using Element.inductionBelow with
  | step e below =>
    simp only [value_eq_ok_iff]
    constructor
    · rintro ⟨f, rule⟩
      exact GoodValue.of_valueRule below rule
    · intro good
      exact good.exists_valueRule below

theorem exists_value_iff_goodApply {e : Element} (kind : e.kind = .apply) :
    (∃ f, value e = .ok f) ↔ GoodApply e := by
  rw [exists_value_iff]
  exact ⟨fun good => good.goodApply kind, .apply⟩

theorem exists_value_iff_goodParens {e : Element} (kind : e.kind = .parens) :
    (∃ f, value e = .ok f) ↔ GoodParens e := by
  rw [exists_value_iff]
  exact ⟨fun good => good.goodParens kind, .parens⟩

theorem exists_value_of_id {e : Element} (kind : e.kind = .id) : ∃ f, value e = .ok f :=
  (exists_value_iff e).2 (.id kind)

theorem exists_value_of_real {e : Element} (kind : e.kind = .real) : ∃ f, value e = .ok f :=
  (exists_value_iff e).2 (.real kind)

end Calcsheet.Code
