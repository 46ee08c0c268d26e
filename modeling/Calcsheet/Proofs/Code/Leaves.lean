import Calcsheet.Proofs.Code.ComplexPairs
import Calcsheet.Proofs.Code.MemberRules
import Mathlib.Data.List.Perm.Subperm

/-!
# Leaves and atoms

The leaves of an element are the numbers and identifiers in it, apart from those that name what is
applied. Each has one spelling in code, which depends on where it stands. The code of a value has
the spellings of its leaves for its atoms, each as often as it occurs, and a `1.0` for each root
(`Conserved`). A complex number that is written out keeps only two of its leaves, the first real and
the first imaginary one, so there must be no others (`conserved_of_translated`).
-/

namespace Calcsheet.Code

/-! ## Atoms -/

namespace Fragment

/-- The text of an atom. -/
def text? : Fragment → Option String
  | atom text => some text
  | _ => none

/-- The texts of the atoms in a fragment. -/
def atoms (f : Fragment) : List String :=
  f.subfragments.filterMap text?

/-- A fragment that is no atom has those of its operands. -/
theorem atoms_eq {f : Fragment} (h : f.text? = none) : f.atoms = f.operands.flatMap atoms := by
  rw [atoms, subfragments_eq, List.filterMap_cons_none h, subfragmentsOf_eq,
    List.filterMap_flatMap]
  rfl

end Fragment

/-! ## Leaves -/

/-- Where a leaf stands. -/
inductive Place where
  | value
  /-- The operand of the decimal logarithm. -/
  | logarithm
  /-- A part of a complex number that is written out. -/
  | part
  deriving DecidableEq

/-- An element that is written as a single word, and where it stands. -/
structure Leaf where
  place : Place
  element : Element

/-- The kinds of leaves. -/
def isLeafKind : Kind → Bool
  | .real | .id | .imag => true
  | _ => false

/-- The leaf in code. -/
def Leaf.spelling (l : Leaf) : String :=
  match l.element.kind with
  | .id =>
    if l.place = .logarithm ∧ identifier l.element = "e" then "Math.E" else identifier l.element
  | .imag => if l.place = .part then l.element.text else l.element.text ++ "i"
  | _ => l.element.text

/-- Where the children of an element stand. -/
def placeIn (e : Element) : Place :=
  match e.kind, e.children with
  | .complex, _ => .part
  | .apply, head :: _ =>
    if head.kind = .id ∧ identifier head = decimalLog then .logarithm else .value
  | _, _ => .value

mutual

/-- The leaves below an element. The first child of an application only names what is applied. -/
def leavesBelow : Element → List Leaf
  | .mk name attributes text children =>
    match Kind.of name, children with
    | .apply, head :: args =>
      leavesBelow head ++ leavesOf (placeIn (.mk name attributes text (head :: args))) args
    | _, children => leavesOf (placeIn (.mk name attributes text children)) children

/-- The leaves among elements in a row and below them. -/
def leavesOf (place : Place) : List Element → List Leaf
  | [] => []
  | e :: rest =>
    (if isLeafKind e.kind then [⟨place, e⟩] else []) ++ (leavesBelow e ++ leavesOf place rest)

end

/-- The leaves at or below an element. -/
def leaves (place : Place) (e : Element) : List Leaf :=
  (if isLeafKind e.kind then [⟨place, e⟩] else []) ++ leavesBelow e

theorem leavesOf_eq (place : Place) (es : List Element) :
    leavesOf place es = es.flatMap (leaves place) := by
  induction es with
  | nil => rw [leavesOf, List.flatMap_nil]
  | cons e rest ih => rw [leavesOf, ih, List.flatMap_cons, leaves, List.append_assoc]

section Leaves

variable {e head : Element} {place : Place}

theorem leavesBelow_of_apply {args : List Element} (kind : e.kind = .apply)
    (children : e.children = head :: args) :
    leavesBelow e = leavesBelow head ++ args.flatMap (leaves (placeIn e)) := by
  cases e with
  | mk name attributes text es =>
    obtain rfl : es = head :: args := children
    have kind : Kind.of name = .apply := kind
    rw [leavesBelow.eq_def]
    dsimp only
    rw [kind]
    dsimp only
    rw [leavesOf_eq]

theorem leavesBelow_of_ne_apply (kind : e.kind ≠ .apply) :
    leavesBelow e = e.children.flatMap (leaves (placeIn e)) := by
  cases e with
  | mk name attributes text es =>
    rw [leavesBelow.eq_def, ← leavesOf_eq]
    dsimp only
    split
    · next applied => exact absurd applied kind
    · rfl

theorem leavesBelow_of_childless (h : e.children = []) : leavesBelow e = [] := by
  cases e with
  | mk name attributes text es =>
    obtain rfl : es = [] := h
    rw [leavesBelow.eq_def]
    simp [leavesOf]

theorem placeIn_of_head {args : List Element} (kind : e.kind = .apply)
    (children : e.children = head :: args) (notName : head.kind ≠ .id) : placeIn e = .value := by
  rw [placeIn, kind, children]
  exact if_neg fun log => notName log.1

theorem placeIn_of_name {args : List Element} (kind : e.kind = .apply)
    (children : e.children = head :: args) (name : head.kind = .id) :
    placeIn e = if identifier head = decimalLog then .logarithm else .value := by
  rw [placeIn, kind, children]
  simp only [name, true_and]

theorem placeIn_of_group (kind : e.kind = .parens ∨ e.kind = .sequence) : placeIn e = .value := by
  rcases kind with kind | kind <;> rw [placeIn, kind]

/-- Where an element stands is only seen from names and imaginary numbers. -/
theorem map_spelling_leaves (notName : e.kind ≠ .id) (notImaginary : e.kind ≠ .imag) :
    (leaves place e).map Leaf.spelling = (leaves .value e).map Leaf.spelling := by
  have own (place : Place) : (Leaf.mk place e).spelling = e.text := by
    unfold Leaf.spelling
    split
    · next name => exact absurd name notName
    · next imaginary => exact absurd imaginary notImaginary
    · rfl
  rw [leaves, leaves]
  split
  · simp [own]
  · rfl

end Leaves

/-- There is nothing inside leaves, nor inside the first child of an application. -/
def Bare (e : Element) : Prop :=
  ∀ d ∈ e :: e.descendants, (isLeafKind d.kind = true → d.children = []) ∧
    (d.kind = .apply → ∀ head ∈ d.children.head?, head.children = [])

instance : DecidablePred Bare := fun e =>
  inferInstanceAs (Decidable (∀ d ∈ e :: e.descendants, (isLeafKind d.kind = true →
    d.children = []) ∧ (d.kind = .apply → ∀ head ∈ d.children.head?, head.children = [])))

theorem Bare.below {d e : Element} (h : Bare e) (hd : d ∈ e.descendants) : Bare d := by
  intro c hc
  rcases List.mem_cons.1 hc with rfl | hc
  · exact h c (List.mem_cons_of_mem _ hd)
  · exact h c (List.mem_cons_of_mem _ (Element.mem_descendants_trans hc hd))

theorem Bare.leavesBelow_of_leaf {e : Element} (h : Bare e) (leaf : isLeafKind e.kind = true) :
    leavesBelow e = [] :=
  leavesBelow_of_childless ((h e List.mem_cons_self).1 leaf)

theorem Bare.leavesBelow_of_apply {e head : Element} {args : List Element} (h : Bare e)
    (kind : e.kind = .apply) (children : e.children = head :: args) :
    leavesBelow e = args.flatMap (leaves (placeIn e)) := by
  have childless := (h e List.mem_cons_self).2 kind head (by simp [children])
  rw [Code.leavesBelow_of_apply kind children, leavesBelow_of_childless childless, List.nil_append]

/-! ## Roots -/

/-- The element takes a root. -/
def isRoot (e : Element) : Bool :=
  match e.kind, e.children with
  | .apply, [head, _, _] => head.kind = .nthRoot
  | _, _ => false

/-- The number of roots taken in elements. -/
def roots (es : List Element) : Nat :=
  (subexpressionsOf es).countP isRoot

theorem roots_append (es es' : List Element) : roots (es ++ es') = roots es + roots es' := by
  rw [roots, subexpressionsOf_eq, List.flatMap_append, List.countP_append, ← subexpressionsOf_eq,
    ← subexpressionsOf_eq]
  rfl

theorem roots_singleton (e : Element) :
    roots [e] = (if isRoot e then 1 else 0) + roots (operands e) := by
  rw [roots, subexpressionsOf_eq, List.flatMap_singleton, subexpressions_eq, List.countP_cons,
    Nat.add_comm]
  rfl

theorem roots_of_single {e : Element} (kind : isLeafKind e.kind = true ∨ e.kind = .complex) :
    roots [e] = 0 := by
  have operands : operands e = [] := by
    rw [operands]
    cases h : e.kind <;> simp_all [isLeafKind]
  have notRoot : isRoot e = false := by
    rw [isRoot]
    cases h : e.kind <;> simp_all [isLeafKind]
  rw [roots_singleton, operands, notRoot]
  rfl

/-! ## Conservation -/

/-- The atoms of the fragment are the spellings of the leaves of the element, each as often as it
occurs, and a `1.0` for each root. -/
def Conserved (e : Element) (f : Fragment) : Prop :=
  f.atoms.Perm (List.replicate (roots [e]) "1.0" ++ (leaves .value e).map Leaf.spelling)

/-- The same of elements that all stand in one place, and of fragments. -/
def Kept (place : Place) (es : List Element) (fs : List Fragment) : Prop :=
  (fs.flatMap Fragment.atoms).Perm
    (List.replicate (roots es) "1.0" ++ (leavesOf place es).map Leaf.spelling)

theorem conserved_iff_kept {e : Element} {f : Fragment} : Conserved e f ↔ Kept .value [e] [f] := by
  rw [Conserved, Kept, leavesOf_eq, List.flatMap_singleton, List.flatMap_singleton]

namespace Kept

variable {e head : Element} {es es' : List Element} {f : Fragment} {fs fs' : List Fragment}
  {place : Place}

theorem nil : Kept place [] [] := by
  simp [Kept, leavesOf, roots, subexpressionsOf]

theorem append (h : Kept place es fs) (h' : Kept place es' fs') :
    Kept place (es ++ es') (fs ++ fs') := by
  rw [Kept, List.perm_iff_count] at h h' ⊢
  intro text
  have here := h text
  have there := h' text
  simp only [leavesOf_eq, List.flatMap_append, List.map_append, roots_append, List.replicate_add,
    List.count_append] at here there ⊢
  omega

theorem perm (h : Kept place es fs) (reordered : fs.Perm fs') : Kept place es fs' :=
  (reordered.symm.flatMap_right _).trans h

/-- A fragment that is no atom has the atoms of its operands. -/
theorem fragment (h : Kept place es f.operands) (whole : f.text? = none) : Kept place es [f] := by
  rwa [Kept, List.flatMap_singleton, Fragment.atoms_eq whole]

/-- The first two of some fragments may be the operands of an operator. -/
theorem operated {a b : Fragment} (operator : String) (h : Kept place es (a :: b :: fs)) :
    Kept place es (.binary operator a b :: fs) := by
  have atoms : (Fragment.binary operator a b).atoms = a.atoms ++ b.atoms := by
    rw [Fragment.atoms_eq rfl]
    simp [Fragment.operands]
  rw [Kept, List.flatMap_cons, atoms, List.append_assoc]
  exact h

theorem callOf (name : String) (h : Kept place es fs) : Kept place es [callOf name fs] :=
  fragment (fragment h rfl) rfl

theorem leaf {text : String} (bare : Bare e) (leaf : isLeafKind e.kind = true)
    (spelling : (Leaf.mk place e).spelling = text) : Kept place [e] [.atom text] := by
  rw [Kept, roots_of_single (.inl leaf), leavesOf_eq, List.flatMap_singleton,
    List.flatMap_singleton, leaves, if_pos leaf, bare.leavesBelow_of_leaf leaf, ← spelling]
  exact .refl _

theorem move (notName : e.kind ≠ .id) (notImaginary : e.kind ≠ .imag) (h : Kept .value [e] fs) :
    Kept place [e] fs := by
  rw [Kept, leavesOf_eq, List.flatMap_singleton] at h ⊢
  rwa [map_spelling_leaves notName notImaginary]

/-- An element that is no leaf has the leaves of its operands if all below it are in them. A root
has a `1.0` besides. -/
theorem inside (notLeaf : isLeafKind e.kind = false)
    (below : leavesBelow e = (operands e).flatMap (leaves (placeIn e)))
    (h : Kept (placeIn e) (operands e) fs) :
    Kept place [e] ((if isRoot e then [.atom "1.0"] else []) ++ fs) := by
  have leaves : leavesOf place [e] = leavesOf (placeIn e) (operands e) := by
    rw [leavesOf_eq, List.flatMap_singleton, leaves, notLeaf, below, leavesOf_eq]
    rfl
  rw [Kept] at h ⊢
  rw [leaves, roots_singleton, List.flatMap_append, List.replicate_add, List.append_assoc]
  refine .append ?_ h
  split
  · exact .refl _
  · exact .refl _

theorem group (kind : e.kind = .parens ∨ e.kind = .sequence) (h : Kept .value e.children fs) :
    Kept place [e] fs := by
  have operands : operands e = e.children := by
    rcases kind with kind | kind <;> rw [Code.operands, kind]
  have notRoot : isRoot e = false := by
    rcases kind with kind | kind <;> simp [isRoot, kind]
  have whole : Kept place [e] ((if isRoot e then [.atom "1.0"] else []) ++ fs) := by
    refine inside ?_ ?_ ?_
    · rcases kind with kind | kind <;> simp [kind, isLeafKind]
    · rw [leavesBelow_of_ne_apply (by rcases kind with kind | kind <;> simp [kind]), operands]
    · rwa [operands, placeIn_of_group kind]
  simpa [notRoot] using whole

theorem application {args : List Element} (bare : Bare e) (kind : e.kind = .apply)
    (children : e.children = head :: args) (operands : operands e = args)
    (h : Kept (placeIn e) args fs) :
    Kept place [e] ((if isRoot e then [.atom "1.0"] else []) ++ fs) := by
  refine inside (by simp [kind, isLeafKind]) ?_ (by rwa [operands])
  rw [bare.leavesBelow_of_apply kind children, operands]

theorem nothing (kind : e.kind = .apply) (children : e.children = []) : Kept place [e] [] := by
  have operands : operands e = [] := by rw [operands, kind, children]
  have notRoot : isRoot e = false := by rw [isRoot, kind, children]
  have whole : Kept place [e] ((if isRoot e then [.atom "1.0"] else []) ++ []) := by
    refine inside (by simp [kind, isLeafKind]) ?_ (by rw [operands]; exact nil)
    rw [leavesBelow_of_childless children, operands, List.flatMap_nil]
  simpa [notRoot] using whole

theorem unary {arg : Element} (bare : Bare e) (kind : e.kind = .apply)
    (children : e.children = [head, arg]) (h : Kept (placeIn e) [arg] fs) : Kept place [e] fs := by
  have notRoot : isRoot e = false := by rw [isRoot, kind, children]
  simpa [notRoot] using application bare kind children (operands_of_unary kind children) h

theorem binary {lhs rhs : Element} (bare : Bare e) (kind : e.kind = .apply)
    (children : e.children = [head, lhs, rhs]) (notRoot : head.kind ≠ .nthRoot)
    (h : Kept (placeIn e) [lhs, rhs] fs) : Kept place [e] fs := by
  have notRoot : isRoot e = false := by
    rw [isRoot, kind, children]
    exact decide_eq_false notRoot
  simpa [notRoot] using application bare kind children (operands_of_binary kind children) h

theorem root {lhs rhs : Element} (bare : Bare e) (kind : e.kind = .apply)
    (children : e.children = [head, lhs, rhs]) (root : head.kind = .nthRoot)
    (h : Kept (placeIn e) [lhs, rhs] fs) : Kept place [e] (.atom "1.0" :: fs) := by
  have root : isRoot e = true := by
    rw [isRoot, kind, children]
    exact decide_eq_true root
  simpa [root] using application bare kind children (operands_of_binary kind children) h

theorem sequenceItems {items : List Element}
    (each : ∀ c ∈ items, ∀ g, value c = .ok g → Kept .value [c] [g])
    (h : sequenceItems items = .ok fs) : Kept .value items fs :=
  sequenceItems_pairing nil append each h

end Kept

theorem text?_sumOf (lhs rhs : Element) (a b : Fragment) : (sumOf lhs rhs a b).text? = none := by
  unfold sumOf
  split
  · split <;> rfl
  · rfl

/-- The name of the operand is the one that its place asks for. -/
theorem spelling_of_named {e head arg : Element} (kind : e.kind = .apply)
    (children : e.children = [head, arg]) (function : head.kind = .id) (operand : arg.kind = .id) :
    (Leaf.mk (placeIn e) arg).spelling = namedOperand (identifier head) (identifier arg) := by
  rw [Leaf.spelling, operand, placeIn_of_name kind children function, namedOperand]
  by_cases log : identifier head = decimalLog <;> simp [log]

theorem kept_of_valueRule {e : Element} {f : Fragment} (bare : Bare e)
    (below : ∀ d ∈ e.descendants, ∀ g, value d = .ok g → Kept .value [d] [g])
    (h : ValueRule e f) : Kept .value [e] [f] := by
  have child {c : Element} {g : Fragment} (hc : c ∈ e.children) (ok : value c = .ok g) :
      Kept .value [c] [g] :=
    below c (Element.mem_descendants_of_mem_children hc) g ok
  have pair {head lhs rhs : Element} {a b : Fragment} (kind : e.kind = .apply)
      (children : e.children = [head, lhs, rhs]) (operator : head.kind ≠ .id)
      (left : value lhs = .ok a) (right : value rhs = .ok b) :
      Kept (placeIn e) [lhs, rhs] [a, b] := by
    rw [placeIn_of_head kind children operator]
    exact (child (by simp [children]) left).append (child (by simp [children]) right)
  have items {head arg : Element} {fs : List Fragment} (children : e.children = [head, arg])
      (operand : arg.kind = .sequence) (ok : sequenceItems arg.children = .ok fs) :
      Kept (placeIn e) [arg] fs :=
    .group (.inr operand) (.sequenceItems (fun c hc g ok => below c
      (Element.mem_descendants_of_mem_children_children (by simp [children]) hc) g ok) ok)
  have single {head arg : Element} {a : Fragment} (kind : e.kind = .apply)
      (children : e.children = [head, arg]) (operator : head.kind ≠ .id) (ok : value arg = .ok a) :
      Kept (placeIn e) [arg] [a] := by
    rw [placeIn_of_head kind children operator]
    exact child (by simp [children]) ok
  cases h with
  | real kind | id kind | imag kind =>
    exact .leaf bare (by rw [kind, isLeafKind]) (by simp [Leaf.spelling, kind])
  | parens kind children operand ok =>
    refine .group (.inl kind) ?_
    rw [children]
    exact child (by simp [children]) ok
  | sequence kind ok =>
    exact .fragment (.group (.inr kind) (.sequenceItems (fun c hc g => child hc) ok)) rfl
  | nothing kind children => exact .fragment (.nothing kind children) rfl
  | @named head arg kind children function operand =>
    have bareArg : Bare arg :=
      bare.below (Element.mem_descendants_of_mem_children (by simp [children]))
    have spelling := spelling_of_named kind children function operand
    exact .unary bare kind children
      (.callOf _ (.leaf bareArg (by rw [operand, isLeafKind]) spelling))
  | called kind children function operand ok =>
    refine .unary bare kind children (.callOf _ (.move ?_ ?_ (child (by simp [children]) ok)))
    · rcases operand with operand | operand <;> simp [operand]
    · rcases operand with operand | operand <;> simp [operand]
  | chosen kind children function operand isIf ok =>
    exact .unary bare kind children (.fragment (items children operand ok) rfl)
  | listed kind children function operand notIf ok =>
    exact .unary bare kind children (.callOf _ (items children operand ok))
  | @builtin head _ _ _ kind children function operand ok =>
    have operator : head.kind ≠ .id := fun id => by simp [id, builtin?] at function
    exact .unary bare kind children (.callOf _ (single kind children operator ok))
  | @nameOnly head _ _ kind children function operand =>
    have operator : head.kind ≠ .id := fun id => by simp [id, nameOnly?] at function
    exact .unary bare kind children
      (.callOf _ (single kind children operator (value_of_id operand)))
  | negated kind children function operand ok =>
    exact .unary bare kind children (.fragment (single kind children (by simp [function]) ok) rfl)
  | sum kind children function left right =>
    refine .binary bare kind children (by simp [function]) (.fragment ?_ (text?_sumOf _ _ _ _))
    exact (pair kind children (by simp [function]) left right).perm (operands_sumOf_perm _ _ _ _)
  | operation kind children function notPlus left right =>
    exact .binary bare kind children (by simp [function])
      (.fragment (pair kind children (by simp [function]) left right) rfl)
  | @root head lhs rhs a b kind children function left right =>
    have whole : Kept .value [e] [.atom "1.0", a, b] :=
      .root bare kind children function (pair kind children (by simp [function]) left right)
    exact .callOf _ (Kept.perm (.operated _ whole) (.swap _ _ _))
  | power kind children function left right =>
    exact .binary bare kind children (by simp [function])
      (.callOf _ (pair kind children (by simp [function]) left right))
  | indexed kind children function left right =>
    exact .binary bare kind children (by simp [function])
      (.fragment (.fragment (pair kind children (by simp [function]) left right) rfl) rfl)

theorem conserved_of_value {e : Element} {f : Fragment} (bare : Bare e) (h : value e = .ok f) :
    Conserved e f := by
  rw [conserved_iff_kept]
  induction e using Element.inductionBelow generalizing f with
  | step e below =>
    exact kept_of_valueRule bare (fun d hd g ok => below d hd (bare.below hd) ok)
      (value_eq_ok_iff.1 h)

/-! ## Complex numbers that are written out -/

section Literal

variable {e re im : Element} {k : Kind}

/-- The first child of a kind of leaves is a leaf, and a part of the number. -/
theorem mem_leaves_of_find? {c : Element} (kind : e.kind = .complex) (leaf : isLeafKind k = true)
    (h : e.children.find? (fun c => c.kind = k) = some c) :
    c.kind = k ∧ Leaf.mk .part c ∈ leaves .value e := by
  have found : c.kind = k := by simpa using List.find?_some h
  have place : placeIn e = .part := by rw [placeIn, kind]
  refine ⟨found, ?_⟩
  rw [leaves, leavesBelow_of_ne_apply (by simp [kind]), place]
  refine List.mem_append_right _ (List.mem_flatMap.2 ⟨c, List.mem_of_find?_eq_some h, ?_⟩)
  rw [leaves, found, if_pos leaf]
  exact List.mem_cons_self

/-- The first real and the first imaginary child are all the leaves exactly if there are two. -/
theorem conserved_literal_iff (kind : e.kind = .complex)
    (real : e.children.find? (fun c => c.kind = .real) = some re)
    (imaginary : e.children.find? (fun c => c.kind = .imag) = some im) :
    Conserved e (.complex (.atom re.text) (.atom im.text)) ↔ (leaves .value e).length = 2 := by
  obtain ⟨hre, memRe⟩ := mem_leaves_of_find? kind rfl real
  obtain ⟨him, memIm⟩ := mem_leaves_of_find? kind rfl imaginary
  have spellings :
      [Leaf.mk .part re, Leaf.mk .part im].map Leaf.spelling = [re.text, im.text] := by
    simp [Leaf.spelling, hre, him]
  have atoms : (Fragment.complex (.atom re.text) (.atom im.text)).atoms = [re.text, im.text] :=
    rfl
  rw [Conserved, roots_of_single (.inr kind), atoms, List.replicate_zero, List.nil_append]
  constructor
  · intro perm
    simpa using perm.length_eq.symm
  · intro two
    have distinct : [Leaf.mk .part re, Leaf.mk .part im].Nodup := by
      simp only [List.nodup_cons, List.mem_singleton, List.not_mem_nil, not_false_eq_true,
        List.nodup_nil, and_true, Leaf.mk.injEq, true_and]
      rintro rfl
      simp [hre] at him
    have among := List.subperm_of_subset distinct
      (List.cons_subset.2 ⟨memRe, List.cons_subset.2 ⟨memIm, List.nil_subset _⟩⟩)
    have all := (among.perm_of_length_le (by simp [two])).map Leaf.spelling
    rwa [spellings] at all

end Literal

/-! ## All translations of an element -/

/-- The fragment is the code of the element where a value, a cell of a matrix or a complex result
stands. -/
inductive Translated (e : Element) (f : Fragment) : Prop
  | value (ok : value e = .ok f)
  | cell (ok : cell e = .ok f)
  | result {result} (children : result.children = [e]) (ok : outcome result = .ok (.complex f))

/-- No leaf is lost or doubled, and each has its spelling, whatever is translated but a complex
number that is written out. Of that one the first real and the first imaginary child are kept, so
all is kept exactly if there are no other leaves in it. -/
theorem conserved_of_translated {e : Element} {f : Fragment} (bare : Bare e)
    (h : Translated e f) :
    (e.kind ≠ .complex → Conserved e f) ∧
    (e.kind = .complex → ∃ re im,
      e.children.find? (fun c => c.kind = .real) = some re ∧
      e.children.find? (fun c => c.kind = .imag) = some im ∧
      f = .complex (.atom re.text) (.atom im.text) ∧
      (Conserved e f ↔ (leaves .value e).length = 2)) := by
  have plain (ok : value e = .ok f) : e.kind ≠ .complex ∧ Conserved e f := by
    refine ⟨fun kind => ?_, conserved_of_value bare ok⟩
    rw [value_eq, kind] at ok
    exact unsupported_ne_ok _ _ _ ok
  have literal {position : Position} (kind : e.kind = .complex)
      (ok : complexLiteral position e = .ok f) : ∃ re im,
        e.children.find? (fun c => c.kind = .real) = some re ∧
        e.children.find? (fun c => c.kind = .imag) = some im ∧
        f = .complex (.atom re.text) (.atom im.text) ∧
        (Conserved e f ↔ (leaves .value e).length = 2) := by
    obtain ⟨re, im, real, imaginary, rfl⟩ := complexLiteral_eq_ok_iff.1 ok
    exact ⟨re, im, real, imaginary, rfl, conserved_literal_iff kind real imaginary⟩
  have either : (e.kind ≠ .complex ∧ Conserved e f) ∨
      e.kind = .complex ∧ ∃ position, complexLiteral position e = .ok f := by
    cases h with
    | value ok => exact .inl (plain ok)
    | cell ok =>
      rcases cell_eq_ok_iff.1 ok with ⟨-, ok⟩ | ⟨kind, ok⟩
      · exact .inl (plain ok)
      · exact .inr ⟨kind, _, ok⟩
    | result children ok =>
      cases OutcomeRule.of_outcome ok with
      | complex children' kind ok =>
        cases children.symm.trans children'
        exact .inr ⟨kind, _, ok⟩
  rcases either with ⟨notLiteral, conserved⟩ | ⟨kind, position, ok⟩
  · exact ⟨fun _ => conserved, fun kind => absurd kind notLiteral⟩
  · exact ⟨fun notLiteral => absurd kind notLiteral, fun _ => literal kind ok⟩

/-- `3i` times the decimal logarithm of `e`, plus the cube root of `x`. -/
def logarithmSum : Element :=
  mathElement "apply" "" [mathElement "plus" "" [],
    mathElement "apply" "" [mathElement "mult" "" [], mathElement "imag" "3" [],
      mathElement "apply" "" [mathElement "id" "log" [], mathElement "id" "e" []]],
    mathElement "apply" "" [mathElement "nthRoot" "" [], mathElement "real" "3" [],
      mathElement "id" "x" []]]

/-- The code of `logarithmSum`. -/
def logarithmSumCode : Fragment :=
  .complex (callOf "Math.Pow" [.atom "x", .binary "/" (.atom "1.0") (.atom "3")])
    (.binary "*" (.atom "3i") (callOf "Math.Log10" [.atom "Math.E"]))

/-- A complex number that is written out with some real and imaginary parts. -/
def complexOf (reals imaginaries : List String) : Element :=
  mathElement "complex" "" (reals.map (fun text => mathElement "real" text []) ++
    imaginaries.map fun text => mathElement "imag" text [])

theorem conserved_logarithmSum :
    Bare logarithmSum ∧ value logarithmSum = .ok logarithmSumCode ∧
    (leaves .value logarithmSum).map Leaf.spelling = ["3i", "Math.E", "3", "x"] ∧
    Conserved logarithmSum logarithmSumCode ∧
    Bare (complexOf ["1"] ["3"]) ∧
    cell (complexOf ["1"] ["3"]) = .ok (.complex (.atom "1") (.atom "3")) ∧
    Conserved (complexOf ["1"] ["3"]) (.complex (.atom "1") (.atom "3")) := by
  have bareSum : Bare logarithmSum := by decide +kernel
  have bareLiteral : Bare (complexOf ["1"] ["3"]) := by decide +kernel
  have sum := (conserved_of_translated bareSum (.value rfl)).1 (by decide)
  obtain ⟨re, im, -, -, -, all⟩ :=
    (conserved_of_translated bareLiteral (.cell rfl)).2 (by decide)
  exact ⟨bareSum, rfl, by decide +kernel, sum, bareLiteral, rfl, all.2 (by decide +kernel)⟩

/-- Of two real parts the second one is lost. -/
theorem lost_complexOf :
    cell (complexOf ["1", "2"] ["3"]) = .ok (.complex (.atom "1") (.atom "3")) ∧
    ¬ ∀ (e : Element) (f : Fragment), Bare e → Translated e f → Conserved e f := by
  refine ⟨rfl, fun conserved => ?_⟩
  have kept := conserved (complexOf ["1", "2"] ["3"]) _ (by decide +kernel) (.cell rfl)
  have lengths : (2 : Nat) = 3 := kept.length_eq
  omega

end Calcsheet.Code
