import Calcsheet.Element
import Calcsheet.Text.Numeral
import Calcsheet.Text.Quoted

/-!
# Documents

A document is a tree whose nodes are numbered in the order in which their elements begin: the root
is number 0 and every node has a greater number than its parent. `Document.root` is the tree of
elements itself; the numbers serve to move about in it.
-/

namespace Calcsheet

/-- The number of a node: how many elements began before it. -/
abbrev NodeId := Nat

/-- One element of a document, with the numbers of its neighbours. -/
structure Node where
  name : QName
  attributes : Attributes := .empty
  text : String := ""
  /-- The number of the parent; the root has none. -/
  parent? : Option NodeId := none
  /-- The numbers of the children, in document order. -/
  children : Array NodeId := #[]
  deriving DecidableEq, Repr, Inhabited

/-- A finished tree. -/
structure Document where
  /-- The nodes in the order of their numbers. -/
  nodes : Array Node
  nonempty : 0 < nodes.size
  deriving Repr

namespace Node

/-- The trees below the nodes of a list that holds the nodes numbered `first`, `first + 1`, ….
Children come after their parent, so their trees are found among the later ones. -/
def trees (first : NodeId) : List Node → List Element
  | [] => []
  | node :: rest =>
    let later := trees (first + 1) rest
    let children := node.children.toList.filterMap fun child => later[child - (first + 1)]?
    .mk node.name node.attributes node.text children :: later

theorem length_trees (first : NodeId) (nodes : List Node) :
    (trees first nodes).length = nodes.length := by
  induction nodes generalizing first with
  | nil => rfl
  | cons node rest ih => simp [trees, ih]

end Node

namespace Document

/-- The tree of elements. -/
def root (d : Document) : Element :=
  (Node.trees 0 d.nodes.toList).head (by
    intro h
    have := congrArg List.length h
    rw [Node.length_trees, Array.length_toList] at this
    have := d.nonempty
    simp_all)

/-- The number of the root. -/
def rootId : NodeId := 0

/-- The numbers of the children of a node. -/
def children (d : Document) (id : NodeId) : List NodeId :=
  match d.nodes[id]? with
  | some node => node.children.toList
  | none => []

/-- The number of the child at `index`. -/
def child? (d : Document) (id : NodeId) (index : Nat) : Option NodeId :=
  (d.children id)[index]?

/-- The number of the parent. -/
def parent? (d : Document) (id : NodeId) : Option NodeId :=
  d.nodes[id]?.bind Node.parent?

/-- The local name of a node. -/
def localName (d : Document) (id : NodeId) : String :=
  match d.nodes[id]? with
  | some node => node.name.localName
  | none => ""

/-- At most `fuel` nodes, met when the nodes of `pending` are visited each before its children. -/
def visit (d : Document) : Nat → List NodeId → List NodeId
  | 0, _ => []
  | _, [] => []
  | fuel + 1, id :: pending => id :: d.visit fuel (d.children id ++ pending)

/-- The nodes below a node, each before its children. No node is met twice, so the number of nodes
bounds the walk. -/
def descendants (d : Document) (id : NodeId) : List NodeId :=
  d.visit d.nodes.size (d.children id)

/-- The local name of a node followed by those of its children. -/
def shape (d : Document) (id : NodeId) : String :=
  Element.shapeOf (d.localName id) ((d.children id).map d.localName)

/-- A node's number and shape, for people who look for faults. -/
def describe (d : Document) (id : NodeId) : String :=
  "NodeRef \x7b id: NodeId(" ++ Text.decimal id ++ "), shape: " ++ Text.quoted (d.shape id) ++
    " \x7d"

end Document

end Calcsheet
