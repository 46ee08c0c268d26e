import Calcsheet.Document.Builder
import Calcsheet.Proofs.Element

/-!
# Documents in preorder

The nodes of a tree stand in a row, a parent before its children: `Node.ofTree` lays a tree out from
a given number on, and `Node.trees` reads it back (`trees_ofTree`). What a builder does while an
element is open comes to one operation, `Builder.add`, which takes text and whole trees into the
innermost open element. Adding twice is adding all at once (`add_add`), and an element that is
opened, filled and closed is a tree added to the element around it (`exists_openElement`).
-/

namespace Calcsheet

/-! ## The layout -/

/-- The numbers of the roots of trees that are laid out one after another. -/
def childIds (first : NodeId) : List Element → List NodeId
  | [] => []
  | e :: rest => first :: childIds (first + e.size) rest

namespace Node

mutual

/-- The nodes of a tree from the number `first` on. -/
def ofTree (parent? : Option NodeId) (first : NodeId) : Element → List Node
  | .mk name attributes text children =>
    { name, attributes, text, parent?, children := (childIds (first + 1) children).toArray } ::
      ofTrees first (first + 1) children

/-- The nodes of trees with one parent. -/
def ofTrees (parent first : NodeId) : List Element → List Node
  | [] => []
  | e :: rest => ofTree (some parent) first e ++ ofTrees parent (first + e.size) rest

end

end Node

/-! ## Sizes -/

namespace Element

mutual

theorem length_descendants : ∀ e : Element, e.descendants.length + 1 = e.size
  | .mk _ _ _ children => by rw [descendants, size, length_subtrees children, Nat.add_comm]

theorem length_subtrees : ∀ es : List Element, (subtrees es).length = sizeAll es
  | [] => rfl
  | e :: rest => by
      have he := length_descendants e
      have hrest := length_subtrees rest
      simp only [subtrees, sizeAll, List.length_cons, List.length_append]
      omega

end

end Element

theorem childIds_append (first : NodeId) (es es' : List Element) :
    childIds first (es ++ es') =
      childIds first es ++ childIds (first + Element.sizeAll es) es' := by
  induction es generalizing first with
  | nil => simp [childIds, Element.sizeAll]
  | cons e rest ih => simp [childIds, Element.sizeAll, ih, Nat.add_assoc]

namespace Node

theorem ofTrees_append (parent first : NodeId) (es es' : List Element) :
    ofTrees parent first (es ++ es') =
      ofTrees parent first es ++ ofTrees parent (first + Element.sizeAll es) es' := by
  induction es generalizing first with
  | nil => simp [ofTrees, Element.sizeAll]
  | cons e rest ih => simp [ofTrees, Element.sizeAll, ih, Nat.add_assoc]

mutual

theorem length_ofTree (parent? : Option NodeId) (first : NodeId) :
    ∀ e : Element, (ofTree parent? first e).length = e.size
  | .mk _ _ _ children => by
      rw [ofTree, List.length_cons, length_ofTrees first (first + 1) children, Element.size,
        Nat.add_comm]

theorem length_ofTrees (parent first : NodeId) :
    ∀ es : List Element, (ofTrees parent first es).length = Element.sizeAll es
  | [] => rfl
  | e :: rest => by
      rw [ofTrees, List.length_append, length_ofTree (some parent) first e,
        length_ofTrees parent (first + e.size) rest, Element.sizeAll]

end

/-! ## Reading the layout back -/

/-- The roots of trees are found by their numbers among the trees and what is below them. -/
theorem filterMap_childIds (first : NodeId) (before es after : List Element) :
    ((childIds (first + before.length) es).filterMap fun id =>
      (before ++ (Element.subtrees es ++ after))[id - first]?) = es := by
  induction es generalizing before with
  | nil => simp [childIds]
  | cons e rest ih =>
    have next : first + before.length + e.size =
        first + (before ++ e :: e.descendants).length := by
      rw [List.length_append, List.length_cons, Element.length_descendants, Nat.add_assoc]
    have moved : before ++ (Element.subtrees (e :: rest) ++ after) =
        (before ++ e :: e.descendants) ++ (Element.subtrees rest ++ after) := by
      simp [Element.subtrees]
    have found : (before ++ (Element.subtrees (e :: rest) ++ after))[before.length]? = some e := by
      simp [Element.subtrees]
    rw [childIds, List.filterMap_cons_some (b := e) (by simpa using found), next, moved, ih]

mutual

theorem trees_ofTree : ∀ (e : Element) (parent? : Option NodeId) (first : NodeId)
    (rest : List Node), trees first (ofTree parent? first e ++ rest) =
      (e :: e.descendants) ++ trees (first + e.size) rest
  | .mk name attributes text children, parent?, first, rest => by
      have later : trees (first + 1) (ofTrees first (first + 1) children ++ rest) =
          Element.subtrees children ++ trees (first + (1 + Element.sizeAll children)) rest := by
        rw [trees_ofTrees children first (first + 1) rest, Nat.add_assoc]
      have found := filterMap_childIds (first + 1) [] children
        (trees (first + (1 + Element.sizeAll children)) rest)
      simp only [List.length_nil, Nat.add_zero, List.nil_append] at found
      simp only [ofTree, List.cons_append, trees, later, Element.descendants, Element.size, found]

theorem trees_ofTrees : ∀ (es : List Element) (parent first : NodeId) (rest : List Node),
    trees first (ofTrees parent first es ++ rest) =
      Element.subtrees es ++ trees (first + Element.sizeAll es) rest
  | [], parent, first, rest => by simp [ofTrees, Element.subtrees, Element.sizeAll]
  | e :: es, parent, first, rest => by
      rw [ofTrees, List.append_assoc, trees_ofTree e (some parent) first,
        trees_ofTrees es parent (first + e.size) rest, Element.subtrees, Element.sizeAll,
        Nat.add_assoc, List.cons_append, List.cons_append, List.append_assoc]

end

end Node

theorem Document.root_eq_of_nodes {d : Document} {e : Element}
    (h : d.nodes.toList = Node.ofTree none 0 e) : d.root = e := by
  have := Node.trees_ofTree e none 0 []
  simp only [List.append_nil] at this
  simp [Document.root, h, this]

/-! ## Building -/

/-- The node with more text and children. -/
def Node.extend (node : Node) (text : String) (children : List NodeId) : Node :=
  { node with text := node.text ++ text, children := node.children ++ children.toArray }

theorem Node.extend_extend (node : Node) (text text' : String) (children children' : List NodeId) :
    (node.extend text children).extend text' children' =
      node.extend (text ++ text') (children ++ children') := by
  simp [Node.extend, String.append_assoc]

section Modify

variable {α : Type} {xs ys : Array α} {i : Nat} {f g : α → α}

theorem modify_append_left (h : i < xs.size) : (xs ++ ys).modify i f = xs.modify i f ++ ys := by
  apply Array.ext
  · simp
  · intro j _ _
    simp only [Array.getElem_modify, Array.getElem_append, Array.size_modify]
    grind

theorem modify_modify : (xs.modify i f).modify i g = xs.modify i fun x => g (f x) := by
  apply Array.ext
  · simp
  · intro j _ _
    simp only [Array.getElem_modify]
    grind

theorem modify_id : xs.modify i id = xs := by
  apply Array.ext
  · simp
  · intro j _ _
    simp [Array.getElem_modify]

theorem modify_push_of_eq_size {x : α} (h : i = xs.size) :
    (xs.push x).modify i f = xs.push (f x) := by
  apply Array.ext
  · simp
  · intro j _ _
    simp only [Array.getElem_modify, Array.getElem_push]
    grind

theorem modify_singleton {x : α} : #[x].modify 0 f = #[f x] := by
  show (#[].push x).modify 0 f = #[].push (f x)
  exact modify_push_of_eq_size rfl

end Modify

namespace Builder

/-- The builder after text and whole trees came into the innermost open element. -/
def add (b : Builder) (text : String) (es : List Element) : Builder :=
  match b.opened with
  | [] => b
  | id :: _ =>
    { b with
      nodes := (b.nodes.modify id fun node => node.extend text (childIds b.nodes.size es)) ++
        (Node.ofTrees id b.nodes.size es).toArray }

/-- Some element is open, and its node has begun. -/
def IsInside (b : Builder) : Prop :=
  ∃ id outer, b.opened = id :: outer ∧ id < b.nodes.size

theorem opened_add (b : Builder) (text : String) (es : List Element) :
    (b.add text es).opened = b.opened := by
  unfold add
  split <;> simp_all

theorem IsInside.add {b : Builder} (h : b.IsInside) (text : String) (es : List Element) :
    (b.add text es).IsInside := by
  obtain ⟨id, outer, opened, hid⟩ := h
  refine ⟨id, outer, by rw [opened_add, opened], ?_⟩
  simp only [Builder.add, opened, Array.size_append, Array.size_modify]
  exact Nat.lt_of_lt_of_le hid (Nat.le_add_right _ _)

theorem add_add {b : Builder} (h : b.IsInside) (text text' : String) (es es' : List Element) :
    (b.add text es).add text' es' = b.add (text ++ text') (es ++ es') := by
  obtain ⟨id, outer, opened, hid⟩ := h
  have hid' : id < (b.nodes.modify id fun node =>
      node.extend text (childIds b.nodes.size es)).size := by
    simpa using hid
  simp only [add, opened, modify_append_left hid', modify_modify, Node.extend_extend,
    Array.size_append, Array.size_modify, List.size_toArray, Node.length_ofTrees, childIds_append,
    Node.ofTrees_append, Array.append_assoc, List.append_toArray]

theorem addText_eq_add (b : Builder) (text : String) : b.addText text = b.add text [] := by
  unfold addText add
  split <;> simp_all [Node.extend, childIds, Node.ofTrees]

theorem add_nothing (b : Builder) : b.add "" [] = b := by
  have same : (fun node : Node => node.extend "" []) = id := by
    funext node
    simp [Node.extend]
  cases b with
  | mk nodes opened =>
    cases opened with
    | nil => rfl
    | cons id outer => simp [add, childIds, Node.ofTrees, same, modify_id]

/-- An element that is opened, filled and closed is one more tree in the element around it. -/
theorem exists_openElement {b : Builder} (h : b.IsInside) (name : QName) (attributes : Attributes) :
    ∃ id b', b.openElement name attributes = .ok (id, b') ∧ b'.IsInside ∧
      ∀ text es, (b'.add text es).closeElement.2 =
        b.add "" [.mk name attributes (Text.trim text) es] := by
  obtain ⟨id, outer, opened, hid⟩ := h
  refine ⟨_, _, by rw [openElement, opened], ⟨_, _, rfl, by simp⟩, fun text es => ?_⟩
  have hsize : b.nodes.size = (b.nodes.modify id fun node =>
      { node with children := node.children.push b.nodes.size }).size := by
    simp
  have hlast : b.nodes.size < ((b.nodes.modify id fun node =>
      { node with children := node.children.push b.nodes.size }).push
        (({ name, attributes, parent? := some id } : Node).extend text
          (childIds (b.nodes.size + 1) es))).size := by
    simp
  simp only [add, closeElement, opened, Array.size_push, Array.size_modify,
    modify_push_of_eq_size hsize]
  rw [modify_append_left hlast, modify_push_of_eq_size hsize]
  simp [Node.ofTrees, Node.ofTree, childIds, Node.extend]

/-- The builder when the root is closed and `e` is the tree below it. -/
def closed (e : Element) : Builder :=
  { nodes := (Node.ofTree none 0 e).toArray, opened := [] }

theorem size_closed_pos (e : Element) : 0 < (closed e).nodes.size := by
  cases e
  simp [closed, Node.ofTree]

theorem finish_closed (e : Element) : ∃ d, (closed e).finish = .ok d ∧ d.root = e :=
  ⟨⟨_, size_closed_pos e⟩, dif_pos (size_closed_pos e), Document.root_eq_of_nodes rfl⟩

/-- The first element, opened, filled and closed, is the whole tree. -/
theorem exists_openElement_root (name : QName) (attributes : Attributes) :
    ∃ id b, empty.openElement name attributes = .ok (id, b) ∧ b.IsInside ∧
      ∀ text es, (b.add text es).closeElement.2 =
        closed (.mk name attributes (Text.trim text) es) := by
  refine ⟨_, _, rfl, ⟨_, _, rfl, by simp⟩, fun text es => ?_⟩
  have hsize : 0 < #[({ name, attributes } : Node).extend text (childIds 1 es)].size := by
    simp
  change (({ nodes := #[{ name, attributes }], opened := [0] } : Builder).add text
    es).closeElement.2 = _
  simp only [add, closeElement, modify_singleton, Array.size_singleton, modify_append_left hsize]
  simp [closed, Node.ofTree, Node.extend]

/-- The first element, opened, filled and closed, is the root of a document. -/
theorem exists_openElement_empty (name : QName) (attributes : Attributes) :
    ∃ id b, empty.openElement name attributes = .ok (id, b) ∧ b.IsInside ∧
      ∀ text es, ∃ d, (b.add text es).closeElement.2.finish = .ok d ∧
        d.root = .mk name attributes (Text.trim text) es := by
  obtain ⟨id, b, opened, inside, close⟩ := exists_openElement_root name attributes
  exact ⟨id, b, opened, inside, fun text es => close text es ▸ finish_closed _⟩

end Builder

end Calcsheet
