import Calcsheet.Proofs.Document.Links
import Calcsheet.Proofs.Document.Preorder

/-!
# Finished documents are laid out in preorder

Calls come to a builder in any order: an element may be refused, and there may be nothing to close.
Still its nodes are at all times those of whole trees and of the elements that are open around them
(`Builder.laid_run`). So a document that is finished holds the nodes of one tree, a parent before
its children, and nothing else (`Document.nodes_of_finish`).
-/

namespace Calcsheet

namespace Builder

/-- Elements are open, one in another, and each has taken in a text and whole trees. -/
inductive Underway : Builder → Prop
  | root {name attributes id b} (text : String) (es : List Element)
      (opened : empty.openElement name attributes = .ok (id, b)) : Underway (b.add text es)
  | inner {outer name attributes id b} (text : String) (es : List Element)
      (around : Underway outer) (opened : outer.openElement name attributes = .ok (id, b)) :
      Underway (b.add text es)

/-- Nothing has come in, elements are open, or the root is closed. -/
inductive Laid : Builder → Prop
  | start : Laid empty
  | underway {b} (underway : Underway b) : Laid b
  | closed (e : Element) : Laid (closed e)

variable {b b' : Builder} {id : NodeId} {name : QName} {attributes : Attributes}

theorem opened_closed (e : Element) : (closed e).opened = [] :=
  rfl

theorem filled_root (opened : empty.openElement name attributes = .ok (id, b)) :
    b.IsInside ∧ ∀ text es,
      (b.add text es).closeElement.2 = closed (.mk name attributes (Text.trim text) es) := by
  obtain ⟨_, _, opened', filled⟩ := exists_openElement_root name attributes
  rw [opened'] at opened
  cases opened
  exact filled

theorem IsInside.filled (h : b.IsInside) (opened : b.openElement name attributes = .ok (id, b')) :
    b'.IsInside ∧ ∀ text es,
      (b'.add text es).closeElement.2 = b.add "" [.mk name attributes (Text.trim text) es] := by
  obtain ⟨_, _, opened', filled⟩ := exists_openElement h name attributes
  rw [opened'] at opened
  cases opened
  exact filled

theorem Underway.isInside (h : b.Underway) : b.IsInside := by
  induction h with
  | root text es opened => exact (filled_root opened).1.add text es
  | inner text es _ opened around => exact (around.filled opened).1.add text es

theorem Underway.add (h : b.Underway) (text : String) (es : List Element) :
    (b.add text es).Underway := by
  cases h with
  | root text' es' opened =>
    rw [add_add (filled_root opened).1]
    exact .root _ _ opened
  | inner text' es' around opened =>
    rw [add_add (around.isInside.filled opened).1]
    exact .inner _ _ around opened

theorem Underway.openElement (h : b.Underway)
    (opened : b.openElement name attributes = .ok (id, b')) : b'.Underway := by
  rw [← add_nothing b']
  exact .inner "" [] h opened

/-- The innermost element becomes a tree in the element around it, or the tree of the document. -/
theorem Underway.closeElement (h : b.Underway) : b.closeElement.2.Laid := by
  cases h with
  | root text es opened =>
    rw [(filled_root opened).2]
    exact .closed _
  | inner text es around opened =>
    rw [(around.isInside.filled opened).2]
    exact .underway (around.add _ _)

theorem Laid.openElement (h : b.Laid) (opened : b.openElement name attributes = .ok (id, b')) :
    b'.Underway := by
  cases h with
  | start =>
    rw [← add_nothing b']
    exact .root "" [] opened
  | underway underway => exact underway.openElement opened
  | closed e =>
    obtain ⟨error, refused⟩ := exists_openElement_error_iff.2 ⟨opened_closed e, size_closed_pos e⟩
    rw [refused] at opened
    cases opened

theorem Laid.addText (h : b.Laid) (text : String) : (b.addText text).Laid := by
  cases h with
  | start => exact .start
  | underway underway =>
    rw [addText_eq_add]
    exact .underway (underway.add text [])
  | closed e => exact .closed e

theorem Laid.closeElement (h : b.Laid) : b.closeElement.2.Laid := by
  cases h with
  | start => exact .start
  | underway underway => exact underway.closeElement
  | closed e => exact .closed e

theorem Laid.call (h : b.Laid) (c : Call) : (b.call c).Laid := by
  cases c with
  | openElement name attributes =>
    rw [Builder.call]
    split
    · next opened => exact .underway (h.openElement opened)
    · exact h
  | leaf name attributes =>
    rw [Builder.call]
    split
    · next ok =>
      obtain ⟨⟨id, inner⟩, opened, close⟩ := bind_eq_ok_iff.1 ok
      obtain ⟨-, rfl⟩ := Prod.mk.inj (Except.ok.inj close)
      exact (h.openElement opened).closeElement
    · exact h
  | addText text => exact h.addText text
  | closeElement => exact h.closeElement

theorem laid_run (calls : List Call) : (run calls).Laid := by
  unfold run
  induction calls using List.reverseRecOn with
  | nil => exact .start
  | append_singleton calls c ih =>
    rw [List.foldl_append]
    exact ih.call c

theorem finish_eq_ok_iff {d : Document} : b.finish = .ok d ↔ b.opened = [] ∧ d.nodes = b.nodes := by
  unfold finish
  split
  · next opened => simp [opened]
  · next opened =>
    have := d.nonempty
    split
    · next nonempty =>
      cases d
      simp [opened, eq_comm]
    · next none =>
      refine iff_of_false (by simp) fun h => none (h.2 ▸ this)

end Builder

/-- The nodes of a finished document are those of its tree, and no others. -/
theorem Document.nodes_of_finish {calls : List Builder.Call} {d : Document}
    (h : (Builder.run calls).finish = .ok d) : d.nodes.toList = Node.ofTree none 0 d.root := by
  obtain ⟨opened, nodes⟩ := Builder.finish_eq_ok_iff.1 h
  have laid := Builder.laid_run calls
  generalize Builder.run calls = b at opened nodes laid
  cases laid with
  | start =>
    have nonempty := d.nonempty
    rw [nodes] at nonempty
    exact absurd nonempty (Nat.lt_irrefl 0)
  | underway underway =>
    obtain ⟨id, outer, opened', -⟩ := underway.isInside
    rw [opened] at opened'
    cases opened'
  | closed e =>
    have tree : d.nodes.toList = Node.ofTree none 0 e := congrArg Array.toList nodes
    rw [tree, Document.root_eq_of_nodes tree]

theorem Document.linked_of_finish {calls : List Builder.Call} {d : Document}
    (h : (Builder.run calls).finish = .ok d) : Linked d.nodes := by
  rw [(Builder.finish_eq_ok_iff.1 h).2]
  exact (Builder.coherent_run calls).toLinked

end Calcsheet
