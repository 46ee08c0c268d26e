import Calcsheet.Proofs.Code.Emission
import Calcsheet.Proofs.Code.Meaning
import Calcsheet.Proofs.Text.Brackets

/-!
# The brackets of generated code are nested

Where no name and no number of a worksheet has a bracket in it, every expression, every member and
so every source file closes what it opens, in order (`nested_emit`). Expressions are balanced by
themselves, one rule after another. Members are balanced as a whole only: what one line opens
another may close, so code is read line by line with the stack of brackets that are open
(`openAfter`).
-/

namespace Calcsheet.Code

open Text (Bracket Balanced isPlain)

/-! ## Elements without brackets -/

/-- The kinds whose text goes into the code. -/
def isVerbatim : Kind → Bool
  | .real | .id | .imag => true
  | _ => false

/-- The element has no bracket in its text, if it is a name or a number, nor in its subscript. -/
def hasPlainTexts (e : Element) : Bool :=
  (!isVerbatim e.kind || isPlain e.text) && (e.attributes.get? "subscript").all isPlain

/-- Neither the element nor anything below it has a bracket in it. -/
def PlainTree (e : Element) : Prop :=
  ∀ d ∈ e :: e.descendants, hasPlainTexts d = true

theorem PlainTree.child {c e : Element} (plain : PlainTree e) (h : c ∈ e.children) :
    PlainTree c := by
  intro d hd
  refine plain d (List.mem_cons_of_mem _ (Element.mem_descendants_iff.2 ⟨c, h, ?_⟩))
  exact List.mem_cons.1 hd

theorem plainTree_of_mem {e root : Element}
    (plain : ∀ d ∈ root.descendants, hasPlainTexts d = true) (h : e ∈ root.descendants) :
    PlainTree e := by
  intro d hd
  rcases List.mem_cons.1 hd with rfl | hd
  · exact plain d h
  · exact plain d (Element.mem_descendants_trans hd h)

theorem PlainTree.text {e : Element} (plain : PlainTree e) (kind : isVerbatim e.kind = true) :
    Balanced e.text := by
  have own := plain e List.mem_cons_self
  simp only [hasPlainTexts, kind, Bool.not_true, Bool.false_or, Bool.and_eq_true] at own
  exact Text.balanced_of_isPlain own.1

theorem PlainTree.subscript {e : Element} (plain : PlainTree e) {subscript : String}
    (h : e.attributes.get? "subscript" = some subscript) : Balanced subscript := by
  have own := plain e List.mem_cons_self
  simp only [hasPlainTexts, h, Option.all_some, Bool.and_eq_true] at own
  exact Text.balanced_of_isPlain own.2

theorem balanced_identifierOf {text : String} {subscript? : Option String} (htext : Balanced text)
    (hsubscript : ∀ subscript, subscript? = some subscript → Balanced subscript) :
    Balanced (identifierOf text subscript?) := by
  -- some names stand for others, which have no brackets
  have known {name : String} (h : Balanced name) :
      Balanced (if name = "π" then "Math.PI" else if name = "ln" then naturalLog
        else if name = "log" then decimalLog else name) := by
    split_ifs
    · exact fun _ => rfl
    · exact fun _ => rfl
    · exact fun _ => rfl
    · exact h
  cases subscript? with
  | none => exact known htext
  | some subscript =>
    have score : Balanced "_" := fun _ => rfl
    exact known ((htext.append score).append (hsubscript subscript rfl))

theorem PlainTree.identifier {e : Element} (plain : PlainTree e) (kind : e.kind = .id) :
    Balanced (identifier e) :=
  balanced_identifierOf (plain.text (by rw [kind]; rfl)) fun _ => plain.subscript

/-! ## Fragments -/

section Fragments

variable {a b c : Fragment} {fs : List Fragment} {name : String}

theorem balanced_renderList (h : ∀ f ∈ fs, Balanced f.render) :
    Balanced (Fragment.renderList fs) := by
  rw [Fragment.renderList_eq]
  exact Text.balanced_joinWith (fun _ => rfl) (List.forall_mem_map.2 h)

theorem balanced_call (hname : Balanced name) (hfs : ∀ f ∈ fs, Balanced f.render) :
    Balanced (Fragment.call name fs).render := by
  intro stack
  simp only [Fragment.render_call, Bracket.after_append, hname.after,
    (balanced_renderList hfs).after]
  rfl

theorem balanced_group (ha : Balanced a.render) : Balanced (Fragment.group a).render := by
  intro stack
  simp only [Fragment.render_group, Bracket.after_append, ha.after]
  rfl

theorem balanced_callOf (hname : Balanced name) (hfs : ∀ f ∈ fs, Balanced f.render) :
    Balanced (callOf name fs).render :=
  balanced_group (balanced_call hname hfs)

theorem balanced_symbol (op : BinaryOp) : Balanced op.symbol := by
  intro stack
  cases op <;> rfl

theorem balanced_binary (op : BinaryOp) (ha : Balanced a.render) (hb : Balanced b.render) :
    Balanced (Fragment.binary op.symbol a b).render := by
  intro stack
  simp only [Fragment.render_binary, Bracket.after_append, ha.after, hb.after,
    (balanced_symbol op).after]
  rfl

theorem balanced_index (ha : Balanced a.render) (hb : Balanced b.render) :
    Balanced (Fragment.index a b).render := by
  intro stack
  simp only [Fragment.render_index, Bracket.after_append, ha.after, hb.after]
  rfl

theorem balanced_negate (ha : Balanced a.render) : Balanced (Fragment.negate a).render := by
  intro stack
  simp only [Fragment.render_negate, Bracket.after_append, ha.after]
  rfl

theorem balanced_complex (ha : Balanced a.render) (hb : Balanced b.render) :
    Balanced (Fragment.complex a b).render := by
  intro stack
  simp only [Fragment.render_complex, Bracket.after_append, ha.after, hb.after]
  rfl

theorem balanced_conditional (ha : Balanced a.render) (hb : Balanced b.render)
    (hc : Balanced c.render) : Balanced (Fragment.conditional a b c).render := by
  intro stack
  simp only [Fragment.render_conditional, Bracket.after_append, ha.after, hb.after, hc.after]
  rfl

theorem balanced_sumOf (lhs rhs : Element) (ha : Balanced a.render) (hb : Balanced b.render) :
    Balanced (sumOf lhs rhs a b).render := by
  unfold sumOf
  split
  · split
    · exact balanced_complex ha hb
    · exact balanced_complex hb ha
    · exact balanced_binary .plus ha hb
  · exact balanced_binary .plus ha hb

end Fragments

/-! ## Values -/

theorem balanced_builtin? {kind : Kind} {name : String} (h : builtin? kind = some name) :
    Balanced name := by
  unfold builtin? at h
  split at h <;> cases h <;> exact fun _ => rfl

theorem balanced_nameOnly? {kind : Kind} {name : String} (h : nameOnly? kind = some name) :
    Balanced name := by
  unfold nameOnly? at h
  split at h <;> cases h <;> exact fun _ => rfl

theorem balanced_namedOperand {function operand : String} (h : Balanced operand) :
    Balanced (namedOperand function operand) := by
  unfold namedOperand
  split
  · exact fun _ => rfl
  · exact h

theorem balanced_sequenceItems {items : List Element} {fs : List Fragment}
    (each : ∀ e ∈ items, ∀ {f}, value e = .ok f → Balanced f.render)
    (h : sequenceItems items = .ok fs) : ∀ f ∈ fs, Balanced f.render :=
  sequenceItems_induction (fun e he _ _ => each e he) h

/-- The code of an expression closes what it opens. -/
theorem balanced_value {e : Element} {f : Fragment} (plain : PlainTree e) (h : value e = .ok f) :
    Balanced f.render := by
  induction e using Element.inductionBelow generalizing f with
  | step e below =>
    have operand {c : Element} (hc : c ∈ e.children) {f : Fragment} (h : value c = .ok f) :
        Balanced f.render :=
      below c (Element.mem_descendants_of_mem_children hc) (plain.child hc) h
    have items {c : Element} (hc : c ∈ e.children) {fs : List Fragment}
        (h : sequenceItems c.children = .ok fs) : ∀ f ∈ fs, Balanced f.render :=
      balanced_sequenceItems (fun d hd _ => below d
        (Element.mem_descendants_of_mem_children_children hc hd) ((plain.child hc).child hd)) h
    have name {c : Element} (hc : c ∈ e.children) (kind : c.kind = .id) :
        Balanced (identifier c) :=
      (plain.child hc).identifier kind
    cases value_eq_ok_iff.1 h with
    | real kind => exact plain.text (by rw [kind]; rfl)
    | id kind => exact plain.identifier kind
    | imag kind => exact (plain.text (by rw [kind]; rfl)).append fun _ => rfl
    | parens kind children _ ok => exact operand (by simp [children]) ok
    | sequence kind ok =>
      exact balanced_renderList (balanced_sequenceItems (fun c hc _ => operand hc) ok)
    | nothing => exact Text.balanced_empty
    | named kind children function arg =>
      refine balanced_callOf (name (by simp [children]) function) fun f hf => ?_
      obtain rfl := List.mem_singleton.1 hf
      exact balanced_namedOperand (name (by simp [children]) arg)
    | called kind children function _ ok =>
      refine balanced_callOf (name (by simp [children]) function) fun f hf => ?_
      obtain rfl := List.mem_singleton.1 hf
      exact operand (by simp [children]) ok
    | chosen kind children _ _ _ ok =>
      have parts := items (by simp [children]) ok
      exact balanced_conditional (parts _ (by simp)) (parts _ (by simp)) (parts _ (by simp))
    | listed kind children function _ _ ok =>
      exact balanced_callOf (name (by simp [children]) function) (items (by simp [children]) ok)
    | builtin kind children function _ ok =>
      refine balanced_callOf (balanced_builtin? function) fun f hf => ?_
      obtain rfl := List.mem_singleton.1 hf
      exact operand (by simp [children]) ok
    | nameOnly kind children function arg =>
      refine balanced_callOf (balanced_nameOnly? function) fun f hf => ?_
      obtain rfl := List.mem_singleton.1 hf
      exact name (by simp [children]) arg
    | negated kind children _ _ ok => exact balanced_negate (operand (by simp [children]) ok)
    | sum kind children _ left right =>
      exact balanced_sumOf _ _ (operand (by simp [children]) left)
        (operand (by simp [children]) right)
    | operation kind children _ _ left right =>
      exact balanced_binary _ (operand (by simp [children]) left)
        (operand (by simp [children]) right)
    | root kind children _ left right =>
      have one : Balanced (Fragment.atom "1.0").render := fun _ => rfl
      have degree := balanced_binary .div one (operand (by simp [children]) left)
      refine balanced_callOf (fun _ => rfl) fun f hf => ?_
      rcases List.mem_pair.1 hf with rfl | rfl
      · exact operand (by simp [children]) right
      · exact degree
    | power kind children _ left right =>
      refine balanced_callOf (fun _ => rfl) fun f hf => ?_
      rcases List.mem_pair.1 hf with rfl | rfl
      · exact operand (by simp [children]) left
      · exact operand (by simp [children]) right
    | indexed kind children _ left right =>
      exact balanced_group (balanced_index (operand (by simp [children]) left)
        (operand (by simp [children]) right))

theorem balanced_complexLiteral {position : Position} {e : Element} {f : Fragment}
    (plain : PlainTree e) (h : complexLiteral position e = .ok f) : Balanced f.render := by
  obtain ⟨re, im, hre, him, rfl⟩ := complexLiteral_eq_ok_iff.1 h
  have real : re.kind = .real := by simpa using List.find?_some hre
  have imag : im.kind = .imag := by simpa using List.find?_some him
  have hre := plain.child (List.mem_of_find?_eq_some hre)
  have him := plain.child (List.mem_of_find?_eq_some him)
  exact balanced_complex (hre.text (by rw [real]; rfl)) (him.text (by rw [imag]; rfl))

theorem balanced_rangeOf {e : Element} {f : Fragment} (plain : PlainTree e)
    (h : rangeOf e = .ok f) : Balanced f.render := by
  unfold rangeOf at h
  split at h
  · next children =>
    split at h
    · simp only [bind_eq_ok_iff, Except.ok.injEq] at h
      obtain ⟨a, ha, b, hb, rfl⟩ := h
      have first := balanced_value (plain.child (by simp [children])) ha
      have bound := balanced_value (plain.child (by simp [children])) hb
      refine balanced_call (fun _ => rfl) fun f hf => ?_
      rcases List.mem_pair.1 hf with rfl | rfl
      · exact first
      · exact balanced_binary .minus bound first
    · cases h
  · cases h

/-! ## Code -/

/-- The brackets that are open after some code, given those that are open before it. -/
def openAfter (stack : List Bracket) (ps : List Piece) : Option (List Bracket) :=
  (Piece.recordsAll 0 ps).foldlM (fun stack r => Bracket.after stack r.2) stack

/-- The code closes what it opens and nothing else. -/
def BalancedCode (ps : List Piece) : Prop :=
  ∀ stack, openAfter stack ps = some stack

theorem BalancedCode.openAfter {ps : List Piece} (h : BalancedCode ps) (stack : List Bracket) :
    openAfter stack ps = some stack :=
  h stack

theorem openAfter_nil (stack : List Bracket) : openAfter stack [] = some stack :=
  rfl

theorem openAfter_append (stack : List Bracket) (ps qs : List Piece) :
    openAfter stack (ps ++ qs) = (openAfter stack ps).bind fun stack => openAfter stack qs := by
  simp [openAfter, Piece.recordsAll_append]

theorem openAfter_line (stack : List Bracket) (text : String) (ps : List Piece) :
    openAfter stack (.line text :: ps) =
      (Bracket.after stack text).bind fun stack => openAfter stack ps := by
  simp [openAfter, Piece.recordsAll, Piece.records]

/-- The level of a line does not count. -/
theorem foldlM_deeper (depth : Nat) (stack : List Bracket) (rs : List (Nat × String)) :
    (rs.map (Piece.deeper depth)).foldlM (fun stack r => Bracket.after stack r.2) stack =
      rs.foldlM (fun stack r => Bracket.after stack r.2) stack := by
  simp [List.foldlM_map, Piece.deeper]

theorem openAfter_block (stack : List Bracket) (body ps : List Piece) (closing : String) :
    openAfter stack (.block body closing :: ps) =
      (openAfter (.curly :: stack) body).bind fun stack =>
        (Bracket.after stack ("\x7d" ++ closing)).bind fun stack => openAfter stack ps := by
  have brace : Bracket.after stack "\x7b" = some (.curly :: stack) := rfl
  have inside := Piece.recordsAll_add 1 body 0
  rw [Nat.zero_add] at inside
  simp [openAfter, Piece.recordsAll, Piece.records, inside, foldlM_deeper, brace]

theorem balancedCode_nil : BalancedCode [] :=
  openAfter_nil

theorem BalancedCode.append {ps qs : List Piece} (hps : BalancedCode ps) (hqs : BalancedCode qs) :
    BalancedCode (ps ++ qs) := by
  intro stack
  rw [openAfter_append, hps.openAfter, Option.bind_some, hqs.openAfter]

theorem balancedCode_line {text : String} (h : Balanced text) : BalancedCode [.line text] := by
  intro stack
  rw [openAfter_line, h.after, Option.bind_some, openAfter_nil]

theorem balancedCode_braces {ps : List Piece} (h : BalancedCode ps) :
    BalancedCode [.braces ps] := by
  intro stack
  rw [Piece.braces, openAfter_block, h.openAfter]
  rfl

/-- A line and the block under it. -/
theorem balancedCode_headed {text : String} {ps : List Piece} (htext : Balanced text)
    (hps : BalancedCode ps) : BalancedCode [.line text, .braces ps] :=
  (balancedCode_line htext).append (balancedCode_braces hps)

theorem balancedCode_getter {declaration : String} {ps : List Piece}
    (hdeclaration : Balanced declaration) (hps : BalancedCode ps) :
    BalancedCode (getter declaration ps) :=
  balancedCode_headed hdeclaration (balancedCode_headed (fun _ => rfl) hps)

theorem balancedCode_propertyLine {name : String} {f : Fragment} (hname : Balanced name)
    (hf : Balanced f.render) : BalancedCode [propertyLine name f] := by
  refine balancedCode_line fun stack => ?_
  simp only [inBraces, Bracket.after_append, hname.after, hf.after]
  rfl

theorem balancedCode_returnLine {f : Fragment} (hf : Balanced f.render) :
    BalancedCode [returnLine f] := by
  refine balancedCode_line fun stack => ?_
  simp only [Bracket.after_append, hf.after]
  rfl

/-- Parentheses are added in pairs, or not at all. -/
theorem balancedCode_guardLine {f : Fragment} (hf : Balanced f.render) :
    BalancedCode [guardLine f] := by
  unfold guardLine
  split
  · refine balancedCode_line fun stack => ?_
    simp only [Bracket.after_append, hf.after]
    rfl
  · refine balancedCode_line fun stack => ?_
    simp only [Bracket.after_append, hf.after]
    rfl

/-! ## Matrices -/

theorem balanced_cells {es : List Element} {fs : List Fragment}
    (plain : ∀ e ∈ es, PlainTree e) (h : cells es = .ok fs) : ∀ f ∈ fs, Balanced f.render := by
  refine walk_induction cell cells rfl (fun _ _ => rfl)
    (P := fun fs => ∀ f ∈ fs, Balanced f.render) (by simp)
    (fun e he f fs hf others => List.forall_mem_cons.2 ⟨?_, others⟩) h
  rcases cell_eq_ok_iff.1 hf with ⟨-, ok⟩ | ⟨-, ok⟩
  · exact balanced_value (plain e he) ok
  · exact balanced_complexLiteral (plain e he) ok

theorem balanced_decimal (n : Nat) : Balanced (Text.decimal n) := by
  refine Text.balanced_of_isPlain (List.all_eq_true.2 fun c hc => ?_)
  rw [Text.decimal, String.toList_ofList] at hc
  have digit := Nat.isDigit_of_mem_toDigits (by decide) (by decide) hc
  rw [Text.isBracket_of_isDigit digit, Bool.not_false]

theorem balancedCode_assignments {rows index : Nat} {fs : List Fragment}
    (h : ∀ f ∈ fs, Balanced f.render) :
    BalancedCode ((Grid.assignmentsFrom rows index fs).map Grid.assignmentLine) := by
  induction fs generalizing index with
  | nil => exact balancedCode_nil
  | cons f rest ih =>
    obtain ⟨hf, h⟩ := List.forall_mem_cons.1 h
    refine BalancedCode.append (balancedCode_line fun stack => ?_) (ih h)
    simp only [Bracket.after_append, (balanced_decimal _).after, hf.after]
    rfl

theorem balancedCode_matrixCode {name : String} {e : Element} {ps : List Piece}
    (hname : Balanced name) (plain : PlainTree e) (h : matrixCode name e = .ok ps) :
    BalancedCode ps := by
  obtain ⟨g, hg, rfl⟩ := matrixCode_eq_ok_iff.1 h
  obtain ⟨-, -, ok, -⟩ := gridOf_eq_ok_iff.1 hg
  have hcells : ∀ f ∈ g.cells, Balanced f.render := balanced_cells (fun e he => plain.child he) ok
  have type : Balanced g.elementType := by
    unfold Grid.elementType
    split <;> exact fun _ => rfl
  refine balancedCode_getter ?_ (((balancedCode_line ?_).append
    (balancedCode_assignments hcells)).append (balancedCode_line fun _ => rfl))
  · intro stack
    simp only [Bracket.after_append, hname.after, type.after]
    rfl
  · intro stack
    simp only [Bracket.after_append, type.after, (balanced_decimal _).after]
    rfl

/-! ## Statements and members -/

theorem balancedCode_statements {es : List Element} {ps : List Piece}
    (each : ∀ e ∈ es, ∀ ps, statement e = .ok ps → BalancedCode ps) (h : statements es = .ok ps) :
    BalancedCode ps :=
  statements_induction balancedCode_nil BalancedCode.append each h

theorem balancedCode_statement {e : Element} {ps : List Piece} (plain : PlainTree e)
    (h : statement e = .ok ps) : BalancedCode ps := by
  induction e using Element.inductionBelow generalizing ps with
  | step e below =>
    have guardLine {c : Element} {guard : Fragment} (hc : c ∈ e.children)
        (h : value c = .ok guard) : BalancedCode [guardLine guard] :=
      balancedCode_guardLine (balanced_value (plain.child hc) h)
    cases StatementRule.of_statement h with
    | branch kind children test choice guarded ok =>
      -- the statements of the branch stand two levels below the statement
      refine (guardLine (by simp [children]) guarded).append (balancedCode_braces ?_)
      refine balancedCode_statements (fun d hd ps hps => ?_) ok
      exact below d (Element.mem_descendants_of_mem_children_children (by simp [children]) hd)
        ((plain.child (by simp [children])).child hd) hps
    | answer kind children test choice guarded ok =>
      refine (guardLine (by simp [children]) guarded).append (balancedCode_braces ?_)
      exact balancedCode_returnLine (balanced_value (plain.child (by simp [children])) ok)
    | expression kind ok =>
      exact balancedCode_line ((balanced_value plain ok).append fun _ => rfl)

theorem balancedCode_program {e : Element} {ps : List Piece} (plain : PlainTree e)
    (h : program e = .ok ps) : BalancedCode ps :=
  balancedCode_statements (fun _ hc _ => balancedCode_statement (plain.child hc))
    (program_eq e ▸ h)

theorem balanced_parameters {es : List Element} {names : List String}
    (plain : ∀ e ∈ es, PlainTree e) (h : parameters es = .ok names) : ∀ s ∈ names, Balanced s := by
  refine walk_induction value parameters rfl (fun _ _ => rfl)
    (P := fun names => ∀ s ∈ names, Balanced s) (by simp)
    (fun e he f names hf others => List.forall_mem_cons.2 ⟨?_, others⟩) h
  exact Balanced.append (fun _ => rfl) (balanced_value (plain e he) hf)

theorem balanced_signature {e : Element} {head : String} (plain : PlainTree e)
    (h : signature e = .ok head) : Balanced head := by
  unfold signature at h
  split at h
  · next name vars children =>
    split at h
    · next kinds =>
      simp only [bind_eq_ok_iff, Except.ok.injEq] at h
      obtain ⟨names, hnames, rfl⟩ := h
      have function := (plain.child (by simp [children])).identifier kinds.1
      have inside : PlainTree vars := plain.child (by simp [children])
      have params : Balanced (Text.joinWith ", " names) :=
        Text.balanced_joinWith (fun _ => rfl) (balanced_parameters (fun _ => inside.child) hnames)
      intro stack
      simp only [Bracket.after_append, function.after, params.after]
      rfl
    · cases h
  · cases h

theorem DefinitionRule.balancedCode {left right : Element} {ps : List Piece}
    (hleft : PlainTree left) (hright : PlainTree right) (h : DefinitionRule left right ps) :
    BalancedCode ps := by
  cases h with
  | field name body ok =>
    refine balancedCode_line fun stack => ?_
    simp only [Bracket.after_append, (hleft.identifier name).after,
      (balanced_value hright ok).after]
    rfl
  | property name body ok =>
    exact balancedCode_propertyLine (hleft.identifier name) (balanced_value hright ok)
  | method name body declared ok =>
    exact balancedCode_headed (balanced_signature hleft declared)
      (balancedCode_returnLine (balanced_value hright ok))
  | range name body ok =>
    refine balancedCode_line fun stack => ?_
    simp only [Bracket.after_append, (hleft.identifier name).after,
      (balanced_rangeOf hright ok).after]
    rfl
  | matrix name body ok => exact balancedCode_matrixCode (hleft.identifier name) hright ok
  | computed name body ok =>
    have declaration : Balanced ("public double " ++ identifier left) :=
      Balanced.append (fun _ => rfl) (hleft.identifier name)
    exact balancedCode_getter declaration (balancedCode_program hright ok)
  | assigned place body assignee ok =>
    refine balancedCode_line fun stack => ?_
    simp only [Bracket.after_append, (balanced_value hleft assignee).after,
      (balanced_value hright ok).after]
    rfl
  | called place body assignee ok =>
    -- the parenthesis that the first line opens is closed behind the block
    intro stack
    simp only [openAfter_line, openAfter_block, openAfter_nil, Bracket.after_append,
      (balanced_value hleft assignee).after, (balancedCode_program hright ok).openAfter]
    rfl

/-- What an evaluation shows is balanced. -/
def BalancedOutcome : Outcome → Prop
  | .scalar f => Balanced f.render
  | .complex f => Balanced f.render
  | .matrix e => PlainTree e

theorem balancedOutcome_outcome {e : Element} {o : Outcome} (plain : PlainTree e)
    (h : outcome e = .ok o) : BalancedOutcome o := by
  have inside {shown : Element} (children : e.children = [shown]) : PlainTree shown :=
    plain.child (by simp [children])
  cases OutcomeRule.of_outcome h with
  | real children _ ok => exact balanced_value (inside children) ok
  | united children _ parts _ ok =>
    exact balanced_value ((inside children).child (by simp [parts])) ok
  | complex children _ ok => exact balanced_complexLiteral (inside children) ok
  | matrix children => exact inside children

theorem balanced_unitOf {e : Element} {f : Fragment} (plain : PlainTree e)
    (h : unitOf e = .ok f) : Balanced f.render := by
  unfold unitOf at h
  split at h
  · next children =>
    split at h
    · exact balanced_value (plain.child (by simp [children])) h
    · cases h
  · cases h

theorem balanced_unitComment {f : Fragment} (hf : Balanced f.render) : Balanced (unitComment f) :=
  Balanced.append (fun _ => rfl) hf

theorem balancedCode_fieldLine {target f : Fragment} {unit? : Option Fragment} {type : String}
    (htarget : Balanced target.render) (hunit : ∀ unit, unit? = some unit → Balanced unit.render)
    (htype : Balanced type) (hf : Balanced f.render) :
    BalancedCode [assignment.fieldLine target unit? type f] := by
  refine balancedCode_line ?_
  cases unit? with
  | none =>
    intro stack
    simp only [Bracket.after_append, htarget.after, htype.after, hf.after]
    rfl
  | some unit =>
    intro stack
    simp only [Bracket.after_append, htarget.after, htype.after, hf.after,
      (balanced_unitComment (hunit unit rfl)).after]
    rfl

theorem balancedCode_assignment {target : Fragment} {unit? : Option Fragment} {o : Outcome}
    {ps : List Piece} (htarget : Balanced target.render)
    (hunit : ∀ unit, unit? = some unit → Balanced unit.render) (hout : BalancedOutcome o)
    (h : assignment target unit? o = .ok ps) : BalancedCode ps := by
  cases o with
  | scalar f =>
    obtain rfl := Except.ok.inj h
    exact balancedCode_fieldLine htarget hunit (fun _ => rfl) hout
  | complex f =>
    obtain rfl := Except.ok.inj h
    exact balancedCode_fieldLine htarget hunit (fun _ => rfl) hout
  | matrix e =>
    simp only [assignment, bind_eq_ok_iff, Except.ok.injEq] at h
    obtain ⟨code, hcode, rfl⟩ := h
    refine BalancedCode.append ?_ (balancedCode_matrixCode htarget hout hcode)
    cases unit? with
    | none => exact balancedCode_nil
    | some unit => exact balancedCode_line (balanced_unitComment (hunit unit rfl))

theorem EvaluationRule.balancedCode {e : Element} {r : List Piece × List Warning}
    (plain : PlainTree e) (h : EvaluationRule e r) : BalancedCode r.1 := by
  cases h with
  | pending children name =>
    refine balancedCode_line fun stack => ?_
    simp only [Bracket.after_append, ((plain.child (by simp [children])).identifier name).after]
    rfl
  | shown children kinds assignee out ok =>
    have target := balanced_value (plain.child (by simp [children])) assignee
    have outcome := balancedOutcome_outcome (plain.child (by simp [children])) out
    exact balancedCode_assignment target (by simp) outcome ok
  | shownIn children kinds assignee united out ok =>
    have target := balanced_value (plain.child (by simp [children])) assignee
    have outcome := balancedOutcome_outcome (plain.child (by simp [children])) out
    have unit := balanced_unitOf (plain.child (by simp [children])) united
    exact balancedCode_assignment target (by rintro _ ⟨⟩; exact unit) outcome ok

theorem balancedCode_emitOwn {parent : Kind} {e : Element} {r : Emission} (plain : PlainTree e)
    (h : emitOwn parent e = .ok r) : BalancedCode r.code := by
  cases OwnRule.of_emitOwn h with
  | definition kind ok =>
    obtain ⟨left, right, children, rule⟩ := DefinitionRule.of_definition ok
    exact rule.balancedCode (plain.child (by simp [children])) (plain.child (by simp [children]))
  | evaluation kind ok => exact (EvaluationRule.of_evaluation ok).balancedCode plain
  | function kind ok => exact balancedCode_propertyLine (fun _ => rfl) (balanced_value plain ok)
  | unimplemented | nothing => exact balancedCode_nil

/-! ## Source files -/

theorem after_writtenText (width : Nat) (stack : List Bracket) (rs : List (Nat × String)) :
    Bracket.after stack (writtenText width rs) =
      rs.foldlM (fun stack r => Bracket.after stack r.2) stack := by
  have line (level : Nat) (text : String) (stack : List Bracket) :
      Bracket.after stack (Writer.lineText width level text) = Bracket.after stack text := by
    have newline : Balanced "\n" := fun _ => rfl
    unfold Writer.lineText
    split
    · next empty => rw [newline.after, empty, Text.balanced_empty.after]
    · simp [Bracket.after_append, (Text.balanced_spaces _).after, newline.after]
  induction rs generalizing stack with
  | nil => exact Text.balanced_empty.after stack
  | cons r rest ih =>
    rw [writtenText, Bracket.after_append, line, List.foldlM_cons]
    exact congrArg _ (funext ih)

theorem after_layOut (width : Nat) (stack : List Bracket) (ps : List Piece) :
    Bracket.after stack (layOut width ps) = openAfter stack ps := by
  rw [layOut_eq, after_writtenText, openAfter]

theorem balancedCode_sourceFile {options : Options} {ps : List Piece}
    (hnamespace : isPlain options.namespaceName = true)
    (hclass : isPlain options.className = true) (hps : BalancedCode ps) :
    BalancedCode (sourceFile options ps) := by
  have head : Balanced ("namespace " ++ options.namespaceName) :=
    Balanced.append (fun _ => rfl) (Text.balanced_of_isPlain hnamespace)
  have declaration : Balanced ("public class " ++ options.className) :=
    Balanced.append (fun _ => rfl) (Text.balanced_of_isPlain hclass)
  have lines : BalancedCode (usings.map fun name => .line ("using " ++ name ++ ";")) :=
    fun _ => rfl
  exact lines.append ((balancedCode_line Text.balanced_empty).append
    (balancedCode_headed head (balancedCode_headed declaration hps)))

/-- If no name and no number of a worksheet has a bracket in it and neither have the names of the
namespace and the class, then the brackets of the source file are nested. -/
theorem nested_emit {options : Options} {document : Document}
    (hnamespace : isPlain options.namespaceName = true) (hclass : isPlain options.className = true)
    (plain : ∀ e ∈ document.root.descendants, hasPlainTexts e = true)
    {result : Converted String} (h : emit options document = .ok result) :
    Text.Nested (Text.brackets result.value) := by
  simp only [emit, bind_eq_ok_iff, Except.ok.injEq] at h
  obtain ⟨emission, hemission, rfl⟩ := h
  have members : BalancedCode emission.code :=
    emitRoot_induction (P := fun r => BalancedCode r.code) balancedCode_nil BalancedCode.append
      (fun e he _ _ => balancedCode_emitOwn (plainTree_of_mem plain he)) hemission
  refine Balanced.nested fun stack => ?_
  rw [after_layOut]
  exact balancedCode_sourceFile hnamespace hclass members stack

/-- The first cell of `v` is set to the root of `x`, if `x` is below 1. -/
def guardedCell : Element :=
  mathElement "worksheet" "" [mathElement "define" ""
    [mathElement "apply" ""
      [mathElement "indexer" "" [], mathElement "id" "v" [], mathElement "real" "0" []],
     mathElement "program" "" [mathElement "ifThen" ""
      [mathElement "apply" ""
        [mathElement "lessThan" "" [], mathElement "id" "x" [], mathElement "real" "1" []],
       mathElement "program" "" [mathElement "apply" ""
        [mathElement "sqrt" "" [], mathElement "id" "x" []]]]]]]

/-- The code of `guardedCell`. The last line closes what the first one opens. -/
def guardedCellCode : List Piece :=
  [.line "(v[0]) = new Func<double>(() =>",
   .block [.line "if (x < 1)", .braces [.line "(Math.Sqrt(x));"]] ")();"]

theorem nested_emit_guardedCell :
    ∃ document result, Document.build guardedCell = .ok document ∧
      (∀ e ∈ document.root.descendants, hasPlainTexts e = true) ∧
      emit {} document = .ok result ∧ result.value = layOut 4 (sourceFile {} guardedCellCode) ∧
      Text.Nested (Text.brackets result.value) := by
  obtain ⟨document, built, root⟩ := Document.exists_build guardedCell
  have plain : ∀ e ∈ document.root.descendants, hasPlainTexts e = true := by
    rw [root]
    exact List.all_eq_true.1 (by decide +kernel)
  obtain ⟨emission, emitted, code⟩ :
      ∃ emission, emitRoot document.root = .ok emission ∧ emission.code = guardedCellCode := by
    rw [root]
    exact ⟨_, rfl, rfl⟩
  have ok : emit {} document =
      .ok ⟨layOut 4 (sourceFile {} emission.code), emission.warnings⟩ := by
    rw [emit, emitted]
    rfl
  exact ⟨document, _, built, plain, ok, by rw [code],
    nested_emit (by decide) (by decide) plain ok⟩

end Calcsheet.Code
