import Calcsheet.Proofs.Document.Finished

/-!
# Walking through a document

The walk below a node keeps a list of pending nodes: it takes the first and puts its children in its
place. `Walk` says which nodes such a walk meets until nothing is pending, and `Preorder` which nodes
come in which order when each is followed by all that is below it, by recursion on the lists of
children. A walk meets the nodes in preorder (`Preorder.walk`). In a finished document the tree at a
node is laid out from the number of the node on, so the numbers that are met are the next ones in
turn, as many as there are nodes below, and they are those of the nodes from which the parents lead
up to where the walk began (`descendants_of_finish`).
-/

namespace Calcsheet

/-! ## Trees in a row of nodes -/

namespace Node

/-- The nodes of the tree stand in the row from the number `id` on. -/
def LaidAt (nodes : List Node) (id : NodeId) (e : Element) : Prop :=
  ∃ parent? rest, nodes.drop id = ofTree parent? id e ++ rest

/-- The nodes of trees with one parent stand in the row from the number `first` on. -/
def AllLaidAt (nodes : List Node) (first : NodeId) (es : List Element) : Prop :=
  ∃ parent rest, nodes.drop first = ofTrees parent first es ++ rest

variable {nodes : List Node} {id first : NodeId} {e : Element} {es : List Element}

theorem laidAt_ofTree (e : Element) : LaidAt (ofTree none 0 e) 0 e :=
  ⟨none, [], by simp⟩

theorem LaidAt.node (h : LaidAt nodes id e) :
    ∃ node, nodes[id]? = some node ∧ node.children.toList = childIds (id + 1) e.children := by
  obtain ⟨parent?, rest, row⟩ := h
  cases e with
  | mk name attributes text children =>
    rw [← List.head?_drop, row, ofTree]
    exact ⟨_, rfl, by simp [Element.children]⟩

theorem LaidAt.below (h : LaidAt nodes id e) : AllLaidAt nodes (id + 1) e.children := by
  obtain ⟨parent?, rest, row⟩ := h
  cases e with
  | mk name attributes text children =>
    refine ⟨id, rest, ?_⟩
    rw [← List.tail_drop, row, ofTree]
    rfl

theorem AllLaidAt.head (h : AllLaidAt nodes first (e :: es)) : LaidAt nodes first e := by
  obtain ⟨parent, rest, row⟩ := h
  rw [ofTrees, List.append_assoc] at row
  exact ⟨_, _, row⟩

theorem AllLaidAt.tail (h : AllLaidAt nodes first (e :: es)) :
    AllLaidAt nodes (first + e.size) es := by
  obtain ⟨parent, rest, row⟩ := h
  refine ⟨parent, rest, ?_⟩
  rw [ofTrees, List.append_assoc] at row
  rw [← List.drop_drop, row, ← length_ofTree (some parent) first e, List.drop_left]

theorem LaidAt.size_le (h : LaidAt nodes id e) : e.size ≤ nodes.length := by
  obtain ⟨parent?, rest, row⟩ := h
  have := congrArg List.length row
  rw [List.length_drop, List.length_append, length_ofTree] at this
  omega

mutual

theorem LaidAt.exists_laidAt : ∀ (e : Element) {id k : NodeId}, LaidAt nodes id e → id ≤ k →
    k < id + e.size → ∃ c, LaidAt nodes k c
  | .mk name attributes text children, id, k, h, first, last => by
      rcases Nat.eq_or_lt_of_le first with rfl | inner
      · exact ⟨_, h⟩
      · rw [Element.size, ← Nat.add_assoc] at last
        exact AllLaidAt.exists_laidAt children h.below inner last

/-- At every number within trees that are laid out there is a tree. -/
theorem AllLaidAt.exists_laidAt : ∀ (es : List Element) {first k : NodeId},
    AllLaidAt nodes first es → first ≤ k → k < first + Element.sizeAll es → ∃ c, LaidAt nodes k c
  | [], first, k, _, least, last => absurd last (Nat.not_lt.2 least)
  | e :: rest, first, k, h, least, last => by
      rcases Nat.lt_or_ge k (first + e.size) with here | later
      · exact LaidAt.exists_laidAt e h.head least here
      · rw [Element.sizeAll, ← Nat.add_assoc] at last
        exact AllLaidAt.exists_laidAt rest h.tail later last

end

theorem drop_trees (first : NodeId) (nodes : List Node) (n : Nat) :
    (trees first nodes).drop n = trees (first + n) (nodes.drop n) := by
  induction n generalizing first nodes with
  | zero => rfl
  | succ n ih =>
    cases nodes with
    | nil => simp [trees]
    | cons node rest => rw [trees, List.drop_succ_cons, List.drop_succ_cons, ih, Nat.add_assoc,
        Nat.add_comm 1 n]

theorem LaidAt.drop_trees (h : LaidAt nodes id e) :
    ∃ rest, (trees 0 nodes).drop id = e :: (e.descendants ++ rest) := by
  obtain ⟨parent?, rest, row⟩ := h
  refine ⟨trees (id + e.size) rest, ?_⟩
  rw [Node.drop_trees, Nat.zero_add, row, trees_ofTree, List.cons_append]

end Node

/-! ## Walks -/

namespace Document

/-- The tree at a node. -/
def tree? (d : Document) (id : NodeId) : Option Element :=
  (Node.trees 0 d.nodes.toList)[id]?

/-- The nodes of `roots` with all that is below them, in preorder: each node is followed by what is
below it, and then come the others. -/
inductive Preorder (d : Document) : List NodeId → List NodeId → Prop
  | nil : Preorder d [] []
  | cons {id roots below others} (inner : Preorder d (d.children id) below)
      (after : Preorder d roots others) : Preorder d (id :: roots) (id :: (below ++ others))

/-- A walk with nodes that are pending meets the given ones, and then nothing is pending. -/
inductive Walk (d : Document) : List NodeId → List NodeId → Prop
  | done : Walk d [] []
  | next {id pending met} (rest : Walk d (d.children id ++ pending) met) :
      Walk d (id :: pending) (id :: met)

variable {d : Document} {roots pending ids met : List NodeId} {k : NodeId} {e : Element}

/-- However many nodes are asked for, those that the walk meets are all that come. -/
theorem Walk.visit_eq (h : d.Walk pending met) (fuel : Nat) :
    d.visit fuel pending = met.take fuel := by
  induction h generalizing fuel with
  | done => cases fuel <;> simp [visit]
  | next _ ih =>
    cases fuel with
    | zero => simp [visit]
    | succ fuel => rw [visit, ih, List.take_succ_cons]

/-- A walk meets pending nodes in preorder, before it goes on with the others. -/
theorem Preorder.walk (h : d.Preorder roots ids) (others : d.Walk pending met) :
    d.Walk (roots ++ pending) (ids ++ met) := by
  induction h generalizing pending met with
  | nil => exact others
  | cons _ _ inner after =>
    rw [List.cons_append, List.cons_append, List.append_assoc]
    exact .next (inner (after others))

theorem mem_children_iff (linked : Linked d.nodes) {c p : NodeId} :
    c ∈ d.children p ↔ d.parent? c = some p := by
  rw [parent?_eq_some_iff, linked.parent_iff, children_eq]

/-- Parents lead up to a node from those below its children and from the children themselves. -/
theorem exists_mem_children_iff (linked : Linked d.nodes) {j : NodeId} :
    (∃ c ∈ d.children k, Relation.ReflTransGen (fun c p => d.parent? c = some p) j c) ↔
      Relation.TransGen (fun c p => d.parent? c = some p) j k := by
  simp only [mem_children_iff linked, Relation.TransGen.tail'_iff, and_comm]

/-- What comes in preorder are the nodes from which parents lead up to one of the roots. -/
theorem Preorder.mem_iff (linked : Linked d.nodes) (h : d.Preorder roots ids) {j : NodeId} :
    j ∈ ids ↔ ∃ r ∈ roots, Relation.ReflTransGen (fun c p => d.parent? c = some p) j r := by
  induction h with
  | nil => simp
  | @cons id roots below others _ _ inner after =>
    rw [List.mem_cons, List.mem_append, inner, after, exists_mem_children_iff linked,
      List.exists_mem_cons_iff, Relation.reflTransGen_iff_eq_or_transGen, ← or_assoc, @eq_comm _ id]

/-! ## Numbers -/

theorem children_of_laidAt (h : Node.LaidAt d.nodes.toList k e) :
    d.children k = childIds (k + 1) e.children := by
  obtain ⟨node, found, children⟩ := h.node
  rw [Array.getElem?_toList] at found
  rw [Document.children, found]
  exact children

mutual

theorem preorder_of_laidAt : ∀ (e : Element) {k : NodeId}, Node.LaidAt d.nodes.toList k e →
    d.Preorder (d.children k) (List.range' (k + 1) e.descendants.length)
  | .mk name attributes text children, k, h => by
      rw [children_of_laidAt h, Element.descendants, Element.length_subtrees]
      exact preorder_of_allLaidAt children h.below

/-- The preorder of trees that are laid out is the order of their numbers. -/
theorem preorder_of_allLaidAt : ∀ (es : List Element) {first : NodeId},
    Node.AllLaidAt d.nodes.toList first es →
      d.Preorder (childIds first es) (List.range' first (Element.sizeAll es))
  | [], _, _ => .nil
  | e :: rest, first, h => by
      have inner := preorder_of_laidAt e h.head
      have after := preorder_of_allLaidAt rest h.tail
      have numbers : List.range' first (Element.sizeAll (e :: rest)) =
          first :: (List.range' (first + 1) e.descendants.length ++
            List.range' (first + e.size) (Element.sizeAll rest)) := by
        rw [Element.sizeAll, ← List.range'_append_1, ← Element.length_descendants,
          List.range'_succ, List.cons_append]
      rw [numbers, childIds]
      exact .cons inner after

end

theorem tree?_of_laidAt (h : Node.LaidAt d.nodes.toList k e) : d.tree? k = some e := by
  obtain ⟨rest, row⟩ := h.drop_trees
  rw [tree?, ← List.head?_drop, row]
  rfl

theorem map_tree?_of_laidAt (h : Node.LaidAt d.nodes.toList k e) :
    (List.range' (k + 1) e.descendants.length).map d.tree? = e.descendants.map some := by
  obtain ⟨rest, row⟩ := h.drop_trees
  apply List.ext_getElem?
  intro i
  have found : d.tree? (k + 1 + i) = (e.descendants ++ rest)[i]? := by
    rw [tree?, Nat.add_assoc, ← List.getElem?_drop, row, Nat.add_comm 1 i, List.getElem?_cons_succ]
  by_cases inside : i < e.descendants.length
  · rw [List.getElem?_map, List.getElem?_map, List.getElem?_range' inside, Nat.one_mul]
    simp [found, inside, List.getElem?_append_left]
  · simp [inside]

theorem exists_laidAt_of_finish {calls : List Builder.Call}
    (h : (Builder.run calls).finish = .ok d) (hk : k < d.nodes.size) :
    ∃ e, Node.LaidAt d.nodes.toList k e := by
  have row := nodes_of_finish h
  have size : d.nodes.size = d.root.size := by
    rw [← Array.length_toList, row, Node.length_ofTree]
  rw [size, ← Nat.zero_add d.root.size] at hk
  rw [row]
  exact Node.LaidAt.exists_laidAt d.root (Node.laidAt_ofTree d.root) (Nat.zero_le k) hk

/-- Below the node `k` of a finished document a walk meets the numbers after `k` in turn, one for
each node of the tree at `k` but the first, and then ends, however many more are asked for. They are
the nodes in preorder, the trees at them are those below the tree at `k` in document order, and they
are the nodes from which parents lead up to `k`. -/
theorem descendants_of_finish {calls : List Builder.Call}
    (h : (Builder.run calls).finish = .ok d) (hk : k < d.nodes.size) :
    ∃ e, d.tree? k = some e ∧
      (∀ fuel, d.visit fuel (d.children k) = (List.range' (k + 1) (e.size - 1)).take fuel) ∧
      d.descendants k = List.range' (k + 1) (e.size - 1) ∧
      d.Preorder (d.children k) (d.descendants k) ∧
      (d.descendants k).map d.tree? = e.descendants.map some ∧
      ∀ j, j ∈ d.descendants k ↔ Relation.TransGen (fun c p => d.parent? c = some p) j k := by
  obtain ⟨e, laid⟩ := exists_laidAt_of_finish h hk
  have preorder := preorder_of_laidAt e laid
  have walk : d.Walk (d.children k) (List.range' (k + 1) e.descendants.length) := by
    simpa using preorder.walk .done
  have met : d.descendants k = List.range' (k + 1) e.descendants.length := by
    have enough := laid.size_le
    rw [Array.length_toList] at enough
    rw [descendants, walk.visit_eq, List.take_of_length_le]
    have size := Element.length_descendants e
    rw [List.length_range']
    omega
  refine ⟨e, tree?_of_laidAt laid, ?_⟩
  rw [← Element.length_descendants e, Nat.add_sub_cancel, met]
  refine ⟨walk.visit_eq, rfl, preorder, map_tree?_of_laidAt laid, fun j => ?_⟩
  rw [preorder.mem_iff (linked_of_finish h), exists_mem_children_iff (linked_of_finish h)]

/-- A sheet with a definition and a mark, between a call that closes nothing and an element that
comes after the root. -/
def markedSheet : List Builder.Call :=
  [.closeElement, .openElement (.unbound "sheet") .empty,
    .openElement (.unbound "define") .empty, .leaf (.unbound "id") .empty,
    .openElement (.unbound "real") .empty, .addText " 3.5", .closeElement, .closeElement,
    .leaf (.unbound "mark") .empty, .closeElement, .openElement (.unbound "late") .empty]

/-- The document of `markedSheet`. -/
def markedDocument : Document :=
  ⟨(Builder.run markedSheet).nodes, by decide⟩

theorem descendants_markedDocument :
    (Builder.run markedSheet).finish = .ok markedDocument ∧ 1 < markedDocument.nodes.size ∧
    ∃ e, markedDocument.tree? 1 = some e ∧
      (∀ fuel, markedDocument.visit fuel (markedDocument.children 1) =
        (List.range' 2 (e.size - 1)).take fuel) ∧
      markedDocument.descendants 1 = List.range' 2 (e.size - 1) ∧
      markedDocument.Preorder (markedDocument.children 1) (markedDocument.descendants 1) ∧
      (markedDocument.descendants 1).map markedDocument.tree? = e.descendants.map some ∧
      ∀ j, j ∈ markedDocument.descendants 1 ↔
        Relation.TransGen (fun c p => markedDocument.parent? c = some p) j 1 :=
  have finished : (Builder.run markedSheet).finish = .ok markedDocument := rfl
  have node : 1 < markedDocument.nodes.size := by decide
  ⟨finished, node, descendants_of_finish finished node⟩

end Document

end Calcsheet
