import Calcsheet.Proofs.Code.Meaning
import Calcsheet.Proofs.Code.Subexpressions
import Calcsheet.Proofs.Text.OuterCommas

/-!
# The parts of a list of expressions

`Fragment.parts` opens lists at any depth. The parts are single expressions, and where names have no
commas and brackets in them, they are what stands between the outer commas of the text, as long as
no index outside all brackets is taken of several expressions
(`outerPieces_render_eq_iff`). A choice takes exactly the three children of its sequence
(`choice_of_sequence`), since none of them gives a list.
-/

namespace Calcsheet.Code

open Text (Leads Cuts outerPieces isUnmarked)

namespace Fragment

/-! ## Opened lists -/

theorem partsOfList_eq (fs : List Fragment) : partsOfList fs = fs.flatMap parts := by
  induction fs with
  | nil => rfl
  | cons f rest ih =>
    rw [List.flatMap_cons, ← ih]
    rfl

theorem parts_eq_flatMap (items : List Fragment) : (list items).parts = items.flatMap parts :=
  partsOfList_eq items

theorem isSingle_of_mem_parts {f p : Fragment} (h : p ∈ f.parts) : p.IsSingle := by
  induction f using inductionOperands with
  | step f inner =>
    cases f with
    | list items =>
      rw [parts_eq_flatMap] at h
      obtain ⟨item, hitem, hp⟩ := List.mem_flatMap.1 h
      exact inner item hitem hp
    | _ =>
      obtain rfl := List.mem_singleton.1 h
      trivial

/-! ## What stands outside all brackets -/

/-- The fragment has its own brackets around all that it is made of. -/
def isClosed : Fragment → Bool
  | index .. | list _ => false
  | _ => true

mutual

/-- The fragment and those inside it that stand outside all of its brackets: the items of lists, and
what an index is taken of. -/
def exposed : Fragment → List Fragment
  | index target position => index target position :: target.exposed
  | list items => list items :: exposedOf items
  | f => [f]

/-- What stands outside all brackets in fragments in a row. -/
def exposedOf : List Fragment → List Fragment
  | [] => []
  | f :: rest => f.exposed ++ exposedOf rest

end

/-- No index outside all brackets is taken of several expressions. -/
def NoListIndexed (f : Fragment) : Prop :=
  ∀ target position, index target position ∈ f.exposed → target.parts.length ≤ 1

theorem exposed_of_isClosed {f : Fragment} (h : f.isClosed = true) : f.exposed = [f] := by
  cases f with
  | index | list => simp [isClosed] at h
  | _ => rfl

theorem noListIndexed_of_isClosed {f : Fragment} (h : f.isClosed = true) : f.NoListIndexed := by
  intro target position mem
  rw [exposed_of_isClosed h, List.mem_singleton] at mem
  rw [← mem] at h
  simp [isClosed] at h

theorem noListIndexed_index_iff {target position : Fragment} :
    (index target position).NoListIndexed ↔ target.parts.length ≤ 1 ∧ target.NoListIndexed := by
  have own : (index target position).exposed = index target position :: target.exposed := rfl
  simp only [NoListIndexed, own, List.mem_cons, index.injEq]
  constructor
  · intro h
    exact ⟨h _ _ (.inl ⟨rfl, rfl⟩), fun t p mem => h t p (.inr mem)⟩
  · rintro ⟨single, h⟩ t p (⟨rfl, -⟩ | mem)
    · exact single
    · exact h t p mem

theorem noListIndexed_list_nil : (list []).NoListIndexed := by
  intro target position mem
  have own : (list []).exposed = [list []] := rfl
  simp [own] at mem

theorem noListIndexed_list_cons_iff {f : Fragment} {rest : List Fragment} :
    (list (f :: rest)).NoListIndexed ↔ f.NoListIndexed ∧ (list rest).NoListIndexed := by
  have whole : (list (f :: rest)).exposed = list (f :: rest) :: (f.exposed ++ exposedOf rest) := rfl
  have others : (list rest).exposed = list rest :: exposedOf rest := rfl
  simp only [NoListIndexed, whole, others, List.mem_cons, List.mem_append, reduceCtorEq, false_or]
  exact ⟨fun h => ⟨fun t p mem => h t p (.inl mem), fun t p mem => h t p (.inr mem)⟩,
    fun h t p mem => mem.elim (h.1 t p) (h.2 t p)⟩

/-! ## Texts -/

/-- The text that a fragment brings in by itself: a name, a number or an operator. -/
def ownText? : Fragment → Option String
  | atom text => some text
  | binary operator .. => some operator
  | call function _ => some function
  | _ => none

/-- No name, number or operator has a comma or a bracket in it. -/
def Unmarked (f : Fragment) : Prop :=
  ∀ g ∈ f.subfragments, ∀ text ∈ g.ownText?, isUnmarked text = true

instance (f : Fragment) : Decidable f.Unmarked :=
  inferInstanceAs (Decidable (∀ g ∈ f.subfragments, ∀ text ∈ g.ownText?, isUnmarked text = true))

/-- No item of a list is an empty list. -/
def Filled (f : Fragment) : Prop :=
  ∀ g ∈ f.subfragments, ∀ items, g = list items → list [] ∉ items

theorem Unmarked.operand {f c : Fragment} (h : f.Unmarked) (hc : c ∈ f.operands) : c.Unmarked :=
  (forall_subfragments_iff.1 h).2 c hc

theorem Unmarked.ownText {f : Fragment} (h : f.Unmarked) {text : String}
    (own : f.ownText? = some text) {depth : Nat} : Leads depth depth text :=
  Text.leads_of_isUnmarked ((forall_subfragments_iff.1 h).1 text own)

theorem Filled.operand {f c : Fragment} (h : f.Filled) (hc : c ∈ f.operands) : c.Filled :=
  (forall_subfragments_iff.1 h).2 c hc

theorem Filled.ne_of_mem {items : List Fragment} (h : (list items).Filled) {f : Fragment}
    (hf : f ∈ items) : f ≠ list [] := by
  rintro rfl
  exact (forall_subfragments_iff.1 h).1 items rfl hf

theorem parts_ne_nil_of_cons {f : Fragment} {rest : List Fragment} (h : f.parts ≠ []) :
    (list (f :: rest)).parts ≠ [] := by
  rw [parts_eq_flatMap, List.flatMap_cons]
  exact List.append_ne_nil_of_left_ne_nil h _

/-- Apart from the empty list, every fragment has a part. -/
theorem Filled.parts_ne_nil {f : Fragment} (h : f.Filled) (notEmpty : f ≠ list []) :
    f.parts ≠ [] := by
  induction f using inductionOperands with
  | step f inner =>
    cases f with
    | list items =>
      cases items with
      | nil => exact absurd rfl notEmpty
      | cons item rest =>
        have first : item ∈ (list (item :: rest)).operands := List.mem_cons_self
        exact parts_ne_nil_of_cons (inner item first (h.operand first) (h.ne_of_mem first))
    | _ => exact List.cons_ne_nil _ _

section Forms

variable {f g h : Fragment} {name : String}

theorem leads_binary (hname : Leads 1 1 name) (hf : Leads 1 1 f.render) (hg : Leads 1 1 g.render) :
    Leads 0 0 (binary name f g).render := by
  have space : Leads 1 1 " " := Text.leads_of_through? rfl
  have left := (Text.leads_opening.append hf).append space
  exact (((left.append hname).append space).append hg).append Text.leads_closing

theorem leads_call {fs : List Fragment} (hname : Leads 0 0 name)
    (hfs : ∀ f ∈ fs, Leads 1 1 f.render) : Leads 0 0 (call name fs).render := by
  have arguments := Text.leads_joinWith (List.forall_mem_map.2 hfs)
  rw [render_call, renderList_eq]
  exact ((hname.append Text.leads_opening).append arguments).append Text.leads_closing

theorem leads_group (hf : Leads 1 1 f.render) : Leads 0 0 (group f).render :=
  (Text.leads_opening.append hf).append Text.leads_closing

theorem leads_negate (hf : Leads 2 2 f.render) : Leads 0 0 (negate f).render := by
  have factor : Leads 0 2 "(-1.0 * (" := Text.leads_of_through? rfl
  have closing : Leads 2 0 "))" := Text.leads_of_through? rfl
  exact (factor.append hf).append closing

theorem leads_complex (hf : Leads 1 1 f.render) (hg : Leads 1 1 g.render) :
    Leads 0 0 (complex f g).render := by
  have maker : Leads 0 1 "new Complex(" := Text.leads_of_through? rfl
  exact (((maker.append hf).append Text.leads_separator).append hg).append Text.leads_closing

theorem leads_conditional (hf : Leads 1 1 f.render) (hg : Leads 2 2 g.render)
    (hh : Leads 1 1 h.render) : Leads 0 0 (conditional f g h).render := by
  have whenTrue : Leads 1 2 " ? (" := Text.leads_of_through? rfl
  have whenFalse : Leads 2 1 ") : " := Text.leads_of_through? rfl
  have condition := (Text.leads_opening.append hf).append whenTrue
  exact (((condition.append hg).append whenFalse).append hh).append Text.leads_closing

theorem leads_position (hf : Leads 1 1 f.render) : Leads 0 0 ("[" ++ f.render ++ "]") := by
  have opening : Leads 0 1 "[" := Text.leads_of_through? rfl
  have closing : Leads 1 0 "]" := Text.leads_of_through? rfl
  exact (opening.append hf).append closing

theorem render_index_eq (target position : Fragment) :
    (index target position).render = target.render ++ ("[" ++ position.render ++ "]") := by
  simp only [render_index, String.append_assoc]

end Forms

/-- Inside brackets no fragment is cut, and a closed one is not cut anywhere. -/
theorem leads_render {f : Fragment} (unmarked : f.Unmarked) {depth : Nat}
    (deep : f.isClosed = true ∨ 0 < depth) : Leads depth depth f.render := by
  induction f using inductionOperands generalizing depth with
  | step f inner =>
    have operand {c : Fragment} (hc : c ∈ f.operands) {depth : Nat} :
        Leads (depth + 1) (depth + 1) c.render :=
      inner c hc (unmarked.operand hc) (.inr depth.succ_pos)
    cases f with
    | empty => exact Text.leads_empty
    | atom text => exact unmarked.ownText rfl
    | binary operator left right =>
      exact (leads_binary (unmarked.ownText rfl) (operand (by simp [operands]))
        (operand (by simp [operands]))).inside
    | call function arguments =>
      exact (leads_call (unmarked.ownText rfl) fun c hc => operand hc).inside
    | group f => exact (leads_group (operand (by simp [operands]))).inside
    | negate f => exact (leads_negate (operand (by simp [operands]))).inside
    | complex re im =>
      exact (leads_complex (operand (by simp [operands])) (operand (by simp [operands]))).inside
    | conditional condition whenTrue whenFalse =>
      exact (leads_conditional (operand (by simp [operands])) (operand (by simp [operands]))
        (operand (by simp [operands]))).inside
    | index target position =>
      have deep : 0 < depth := by simpa [isClosed] using deep
      obtain ⟨depth, rfl⟩ := Nat.exists_eq_add_one.2 deep
      rw [render_index_eq]
      exact (operand (by simp [operands])).append
        (leads_position (operand (by simp [operands]))).inside
    | list items =>
      have deep : 0 < depth := by simpa [isClosed] using deep
      obtain ⟨depth, rfl⟩ := Nat.exists_eq_add_one.2 deep
      change Leads (depth + 1) (depth + 1) (renderList items)
      rw [renderList_eq]
      exact Text.leads_joinWith (List.forall_mem_map.2 fun c hc => operand hc)

/-! ## Cutting against parts -/

/-- The text of the fragment is cut into at least as many pieces as it has parts (one if it has
none). There are no more exactly if no list is indexed, and then the pieces are the parts. -/
structure Tallies (f : Fragment) (done : List String) (last : String) : Prop where
  cuts : Cuts f.render done last
  length_le : f.parts.length ≤ done.length + 1
  length_eq_iff : f.NoListIndexed ↔ done.length + 1 = max 1 f.parts.length
  pieces_eq : f.NoListIndexed → f.parts ≠ [] → done ++ [last] = f.parts.map render

section Tallies

variable {done : List String} {last : String}

theorem tallies_of_isClosed {f : Fragment} (unmarked : f.Unmarked) (closed : f.isClosed = true) :
    Tallies f [] f.render := by
  have single : f.parts = [f] := by
    cases f with
    | list => simp [isClosed] at closed
    | _ => rfl
  exact ⟨(leads_render unmarked (.inl closed)).cuts, by simp [single],
    iff_of_true (noListIndexed_of_isClosed closed) (by simp [single]), fun _ _ => by simp [single]⟩

/-- An index goes on the last piece of what it is taken of. -/
theorem tallies_index {target position : Fragment} (unmarked : position.Unmarked)
    (h : Tallies target done last) :
    Tallies (index target position) done (last ++ ("[" ++ position.render ++ "]")) := by
  have square := leads_position (leads_render unmarked (.inr Nat.one_pos))
  have single : (index target position).parts = [index target position] := rfl
  have le := h.length_le
  have alone : (index target position).NoListIndexed ↔ done.length + 1 = 1 := by
    rw [noListIndexed_index_iff, h.length_eq_iff]
    omega
  refine ⟨?_, by simp [single], by simpa [single] using alone, fun whole _ => ?_⟩
  · rw [render_index_eq]
    exact h.cuts.append square
  · obtain rfl : done = [] := by simpa using alone.1 whole
    have text : last = target.render := h.cuts.joinWith_eq
    rw [single, List.map_singleton, render_index_eq, text, List.nil_append]

theorem tallies_list_nil : Tallies (list []) [] "" :=
  ⟨Text.leads_empty.cuts, Nat.zero_le _, iff_of_true noListIndexed_list_nil rfl,
    fun _ some => absurd rfl some⟩

theorem tallies_list_singleton {f : Fragment} (h : Tallies f done last) :
    Tallies (list [f]) done last := by
  have same : (list [f]).parts = f.parts := by simp [parts_eq_flatMap]
  have whole : (list [f]).NoListIndexed ↔ f.NoListIndexed := by
    simp [noListIndexed_list_cons_iff, noListIndexed_list_nil]
  constructor
  · exact h.cuts
  all_goals rw [same]
  · exact h.length_le
  · exact whole.trans h.length_eq_iff
  · exact fun indexed => h.pieces_eq (whole.1 indexed)

/-- At a comma the last piece of the first item is complete. -/
theorem tallies_list_cons {f g : Fragment} {rest : List Fragment} {done' : List String}
    {last' : String} (hf : Tallies f done last) (hrest : Tallies (list (g :: rest)) done' last')
    (first : f.parts ≠ []) (others : (list (g :: rest)).parts ≠ []) :
    Tallies (list (f :: g :: rest)) (done ++ last :: done') last' := by
  have both : (list (f :: g :: rest)).parts = f.parts ++ (list (g :: rest)).parts := by
    simp [parts_eq_flatMap]
  have lef := hf.length_le
  have lerest := hrest.length_le
  have posf := List.length_pos_iff.2 first
  have posrest := List.length_pos_iff.2 others
  refine ⟨hf.cuts.comma hrest.cuts, ?_, ?_, fun whole _ => ?_⟩
  · simp only [both, List.length_append, List.length_cons]
    omega
  · -- neither side can make up for more pieces on the other
    rw [noListIndexed_list_cons_iff, hf.length_eq_iff, hrest.length_eq_iff]
    simp only [both, List.length_append, List.length_cons]
    omega
  · obtain ⟨wholef, wholerest⟩ := noListIndexed_list_cons_iff.1 whole
    rw [both, List.map_append, ← hf.pieces_eq wholef first, ← hrest.pieces_eq wholerest others]
    simp

end Tallies

theorem exists_tallies_list {items : List Fragment} (filled : ∀ f ∈ items, f.parts ≠ [])
    (each : ∀ f ∈ items, ∃ done last, Tallies f done last) :
    ∃ done last, Tallies (list items) done last := by
  induction items with
  | nil => exact ⟨[], "", tallies_list_nil⟩
  | cons f rest ih =>
    obtain ⟨first, others⟩ := List.forall_mem_cons.1 filled
    obtain ⟨⟨done, last, hf⟩, later⟩ := List.forall_mem_cons.1 each
    cases rest with
    | nil => exact ⟨done, last, tallies_list_singleton hf⟩
    | cons g rest =>
      obtain ⟨done', last', hrest⟩ := ih others later
      exact ⟨_, _, tallies_list_cons hf hrest first
        (parts_ne_nil_of_cons (others g List.mem_cons_self))⟩

theorem exists_tallies {f : Fragment} (unmarked : f.Unmarked) (filled : f.Filled) :
    ∃ done last, Tallies f done last := by
  induction f using inductionOperands with
  | step f inner =>
    have operand {c : Fragment} (hc : c ∈ f.operands) :=
      inner c hc (unmarked.operand hc) (filled.operand hc)
    cases f with
    | index target position =>
      obtain ⟨done, last, h⟩ := operand (List.mem_cons_self : target ∈ [target, position])
      exact ⟨done, _, tallies_index (unmarked.operand (by simp [operands])) h⟩
    | list items =>
      refine exists_tallies_list (fun c hc => ?_) fun c hc => operand hc
      exact (filled.operand hc).parts_ne_nil (filled.ne_of_mem hc)
    | _ => exact ⟨[], _, tallies_of_isClosed unmarked rfl⟩

theorem noListIndexed_list {items : List Fragment} (h : ∀ f ∈ items, f.NoListIndexed) :
    (list items).NoListIndexed := by
  induction items with
  | nil => exact noListIndexed_list_nil
  | cons f rest ih =>
    obtain ⟨first, others⟩ := List.forall_mem_cons.1 h
    exact noListIndexed_list_cons_iff.2 ⟨first, ih others⟩

end Fragment

/-! ## Parts of values -/

theorem isClosed_sumOf (lhs rhs : Element) (a b : Fragment) :
    (sumOf lhs rhs a b).isClosed = true := by
  unfold sumOf
  split
  · split <;> rfl
  · rfl

/-- The value of a number, a name or an applied expression is closed: an index stands in
parentheses. -/
theorem isClosed_value {e : Element} {f : Fragment} (h : value e = .ok f)
    (operand : isOperandKind e.kind = true) : f.isClosed = true := by
  cases value_eq_ok_iff.1 h with
  | parens kind | sequence kind => simp [kind, isOperandKind] at operand
  | sum => exact isClosed_sumOf _ _ _ _
  | _ => rfl

theorem noListIndexed_value {e : Element} {f : Fragment} (h : value e = .ok f) :
    f.NoListIndexed := by
  have single {c : Element} {g : Fragment} (ok : value c = .ok g)
      (operand : isOperandKind c.kind = true) : g.NoListIndexed :=
    Fragment.noListIndexed_of_isClosed (isClosed_value ok operand)
  by_cases operand : isOperandKind e.kind = true
  · exact single h operand
  cases value_eq_ok_iff.1 h with
  | imag => exact Fragment.noListIndexed_of_isClosed rfl
  | parens _ _ operand ok => exact single ok operand
  | sequence _ ok =>
    refine Fragment.noListIndexed_list (sequenceItems_induction ?_ ok)
    exact fun _ _ _ operand ok => single ok operand
  | _ => simp_all [isOperandKind]

/-- Parts are single expressions. Where no name has a comma or a bracket in it and no item of a list
is an empty list, the parts of a fragment stand between the outer commas of its text exactly if no
index outside all brackets is taken of several expressions. So it is for the value of an element. -/
theorem outerPieces_render_eq_iff {f : Fragment} (unmarked : f.Unmarked) (filled : f.Filled)
    (some : f.parts ≠ []) :
    (∀ p ∈ f.parts, p.IsSingle) ∧
    (outerPieces f.render = f.parts.map Fragment.render ↔ f.NoListIndexed) ∧
    ∀ e, value e = .ok f → outerPieces f.render = f.parts.map Fragment.render := by
  obtain ⟨done, last, tallies⟩ := Fragment.exists_tallies unmarked filled
  have pieces : outerPieces f.render = done ++ [last] := tallies.cuts.outerPieces_eq
  have eq_iff : outerPieces f.render = f.parts.map Fragment.render ↔ f.NoListIndexed := by
    constructor
    · intro same
      have pos := List.length_pos_iff.2 some
      have length : done.length + 1 = f.parts.length := by
        simpa [pieces] using congrArg List.length same
      exact tallies.length_eq_iff.2 (by omega)
    · intro whole
      rw [pieces, tallies.pieces_eq whole some]
  exact ⟨fun p => Fragment.isSingle_of_mem_parts, eq_iff,
    fun e ok => eq_iff.2 (noListIndexed_value ok)⟩

/-- An index of two expressions, `a, b[i]`. -/
def indexedPair : Fragment :=
  .index (.list [.atom "a", .atom "b"]) (.atom "i")

/-- Its comma separates the two, although they are one part. -/
theorem outerPieces_indexedPair :
    ¬ ∀ f : Fragment, f.Unmarked → f.parts ≠ [] → f.Filled →
      outerPieces f.render = f.parts.map Fragment.render ∧ ∀ p ∈ f.parts, p.IsSingle := by
  intro agree
  have unmarked : indexedPair.Unmarked := by decide
  have filled : indexedPair.Filled := by
    simp [Fragment.Filled, indexedPair, Fragment.subfragments, Fragment.subfragmentsOf]
  have same := (agree indexedPair unmarked (List.cons_ne_nil _ _) filled).1
  exact absurd same (by decide)

/-- A condition, a power and an element of a table, the last in a list of its own:
`(x < 0), (Math.Pow(x, 2)), v[i, j]`. -/
def nestedRow : Fragment :=
  .list [.binary "<" (.atom "x") (.atom "0"), callOf "Math.Pow" [.atom "x", .atom "2"],
    .list [.index (.atom "v") (.list [.atom "i", .atom "j"])]]

theorem outerPieces_nestedRow :
    nestedRow.Unmarked ∧ nestedRow.Filled ∧ nestedRow.parts ≠ [] ∧ nestedRow.NoListIndexed ∧
      outerPieces nestedRow.render = nestedRow.parts.map Fragment.render ∧
      nestedRow.parts.map Fragment.render = ["(x < 0)", "(Math.Pow(x, 2))", "v[i, j]"] := by
  have unmarked : nestedRow.Unmarked := by decide
  have filled : nestedRow.Filled := by
    simp [Fragment.Filled, nestedRow, callOf, Fragment.subfragments, Fragment.subfragmentsOf]
  have some : nestedRow.parts ≠ [] := List.cons_ne_nil _ _
  have single : (Fragment.atom "v").parts.length ≤ 1 := by decide
  have whole : nestedRow.NoListIndexed := by
    simpa [Fragment.NoListIndexed, nestedRow, callOf, Fragment.exposed, Fragment.exposedOf] using
      single
  exact ⟨unmarked, filled, some, whole,
    (outerPieces_render_eq_iff unmarked filled some).2.1.2 whole, by decide⟩

/-! ## Choices -/

theorem isOperandKind_iff {kind : Kind} :
    isOperandKind kind = true ↔ kind ∈ [Kind.real, .id, .apply] := by
  cases kind <;> simp [isOperandKind]

/-- A choice is made of the items of its sequence. -/
theorem value_of_choice {e head sequence : Element} (kind : e.kind = .apply)
    (children : e.children = [head, sequence]) (function : head.kind = .id)
    (operand : sequence.kind = .sequence) (isIf : identifier head = "if") :
    value e = sequenceItems sequence.children >>= conditionalOf sequence := by
  rw [value_eq, kind, children]
  simp only [unaryRule?, function, operand, isIf, if_true, value_sequence_eq_bind operand]
  cases sequenceItems sequence.children <;> rfl

theorem conditionalOf_of_length_ne {fs : List Fragment} (single : ∀ f ∈ fs, f.IsSingle)
    (notThree : fs.length ≠ 3) (sequence : Element) :
    conditionalOf sequence fs = unsupported .conditional sequence := by
  rw [conditionalOf, Fragment.parts_list single]
  split
  · exact absurd rfl notThree
  · rfl

theorem sequenceItems_eq_three_iff {items : List Element} {a b d : Fragment} :
    sequenceItems items = .ok [a, b, d] ↔
      ∃ c t u, items = [c, t, u] ∧ (isOperandKind c.kind = true ∧ value c = .ok a) ∧
        (isOperandKind t.kind = true ∧ value t = .ok b) ∧
        isOperandKind u.kind = true ∧ value u = .ok d := by
  rw [sequenceItems_eq_ok_iff]
  constructor
  · rintro (_ | ⟨hc, _ | ⟨ht, _ | ⟨hu, _ | _⟩⟩⟩)
    exact ⟨_, _, _, rfl, hc, ht, hu⟩
  · rintro ⟨c, t, u, rfl, hc, ht, hu⟩
    exact .cons hc (.cons ht (.cons hu .nil))

theorem choiceOfItems_eq_ok_iff {items : List Element} {sequence : Element} {f : Fragment} :
    sequenceItems items >>= conditionalOf sequence = .ok f ↔
      ∃ a b d, sequenceItems items = .ok [a, b, d] ∧ f = .conditional a b d := by
  rw [bind_eq_ok_iff]
  constructor
  · rintro ⟨fs, ok, hf⟩
    obtain ⟨a, b, d, rfl, rfl⟩ := (conditionalOf_eq_ok_iff (isSingle_sequenceItems ok)).1 hf
    exact ⟨a, b, d, ok, rfl⟩
  · rintro ⟨a, b, d, ok, rfl⟩
    exact ⟨_, ok, (conditionalOf_eq_ok_iff (isSingle_sequenceItems ok)).2 ⟨a, b, d, rfl, rfl⟩⟩

/-- The choice of a condition and two alternatives takes exactly the three children of its sequence,
each with a fragment of its own. Any other number of children is refused, and so is what the
sequence refuses. No child is split and no two are merged. -/
theorem choice_of_sequence {e head sequence : Element} (kind : e.kind = .apply)
    (children : e.children = [head, sequence]) (function : head.kind = .id)
    (operand : sequence.kind = .sequence) (isIf : identifier head = "if") :
    (∀ f, value e = .ok f ↔
      ∃ c t u, sequence.children = [c, t, u] ∧
        (∀ x ∈ [c, t, u], x.kind ∈ [Kind.real, .id, .apply]) ∧
        ∃ a b d, value c = .ok a ∧ value t = .ok b ∧ value u = .ok d ∧ f = .conditional a b d) ∧
    ((∀ x ∈ sequence.children, x.kind ∈ [Kind.real, .id, .apply] ∧ ∃ a, value x = .ok a) →
      sequence.children.length ≠ 3 →
      value e = .error { position := .conditional, shape := sequence.shape }) ∧
    (∀ u, value sequence = .error u → value e = .error u) ∧
    ∀ fs, List.Forall₂ (fun x f => x.kind ∈ [Kind.real, .id, .apply] ∧ value x = .ok f)
      sequence.children fs → (Fragment.list fs).parts = fs := by
  have whole := value_of_choice kind children function operand isIf
  simp only [← isOperandKind_iff, ← sequenceItems_eq_ok_iff]
  refine ⟨fun f => ?_, fun each notThree => ?_, fun u refused => ?_, fun fs ok => ?_⟩
  · simp only [whole, choiceOfItems_eq_ok_iff, sequenceItems_eq_three_iff, List.forall_mem_cons]
    constructor
    · rintro ⟨a, b, d, ⟨c, t, u, same, hc, ht, hu⟩, rfl⟩
      exact ⟨c, t, u, same, ⟨hc.1, ht.1, hu.1, by simp⟩, a, b, d, hc.2, ht.2, hu.2, rfl⟩
    · rintro ⟨c, t, u, same, ⟨kindc, kindt, kindu, -⟩, a, b, d, hc, ht, hu, rfl⟩
      exact ⟨a, b, d, ⟨c, t, u, same, ⟨kindc, hc⟩, ⟨kindt, ht⟩, kindu, hu⟩, rfl⟩
  · obtain ⟨fs, ok⟩ := exists_sequenceItems_iff.2 each
    rw [← length_sequenceItems ok] at notThree
    rw [whole, ok]
    exact conditionalOf_of_length_ne (isSingle_sequenceItems ok) notThree sequence
  · rw [whole, (value_sequence_eq_error_iff operand).1 refused]
    rfl
  · exact Fragment.parts_list (isSingle_sequenceItems ok)

/-- The function `if` of some arguments. -/
def choice (items : List Element) : Element :=
  mathElement "apply" "" [mathElement "id" "if" [], mathElement "sequence" "" items]

/-- The power `x ^ 2`. -/
def square : Element :=
  mathElement "apply" "" [mathElement "pow" "" [], mathElement "id" "x" [],
    mathElement "real" "2" []]

/-- `g(a, b)`. -/
def pairCall : Element :=
  mathElement "apply" "" [mathElement "id" "g" [],
    mathElement "sequence" "" [mathElement "id" "a" [], mathElement "id" "b" []]]

/-- A sequence has no place for an imaginary number. So a choice of a name and such a number is
refused for the number, although both have a value and a choice takes three. -/
theorem value_choice_of_imaginary :
    value (choice [mathElement "id" "p" [], mathElement "imag" "3" []]) =
      .error { position := .sequence, shape := "imag" } ∧
    ¬ ∀ e head sequence : Element, e.kind = .apply → e.children = [head, sequence] →
      head.kind = .id → sequence.kind = .sequence → identifier head = "if" →
      (∀ x ∈ sequence.children, ∃ a, value x = .ok a) → sequence.children.length ≠ 3 →
      value e = .error { position := .conditional, shape := sequence.shape } := by
  refine ⟨rfl, fun refused => ?_⟩
  have items : ∀ x ∈ [mathElement "id" "p" [], mathElement "imag" "3" []],
      ∃ a, value x = .ok a := by
    intro x hx
    rcases List.mem_pair.1 hx with rfl | rfl
    · exact ⟨.atom "p", rfl⟩
    · exact ⟨.atom "3i", rfl⟩
  have refusal := refused (choice [mathElement "id" "p" [], mathElement "imag" "3" []]) _ _ rfl rfl
    rfl rfl rfl items (by decide)
  cases refusal

/-- A choice in a choice, with calls of two arguments in both, and a choice without an
alternative. -/
theorem choice_of_nestedChoice :
    value (choice [mathElement "id" "p" [], square,
        choice [mathElement "id" "q" [], pairCall, mathElement "real" "0" []]]) =
      .ok (.conditional (.atom "p") (callOf "Math.Pow" [.atom "x", .atom "2"])
        (.conditional (.atom "q") (callOf "g" [.atom "a", .atom "b"]) (.atom "0"))) ∧
    value (choice [mathElement "id" "p" [], square]) =
      .error { position := .conditional, shape := "sequence(id, apply)" } := by
  constructor
  · refine ((choice_of_sequence rfl rfl rfl rfl rfl).1 _).2
      ⟨_, _, _, rfl, ?_, _, _, _, rfl, rfl, rfl, rfl⟩
    decide
  · have refused := (choice_of_sequence (e := choice [mathElement "id" "p" [], square]) rfl rfl rfl
      rfl rfl).2.1
    refine refused (fun x hx => ?_) (by decide)
    rcases List.mem_pair.1 hx with rfl | rfl
    · exact ⟨by decide, _, rfl⟩
    · exact ⟨by decide, _, rfl⟩

end Calcsheet.Code
