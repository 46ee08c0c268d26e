import Calcsheet.Proofs.Document.Preorder

/-!
# The document of a tree

`Document.build` hands a tree to a builder, event by event. Building never fails, and the root of the
document is the tree again, with the blanks at the ends of its texts taken off
(`Document.exists_build`).
-/

namespace Calcsheet

namespace Element

mutual

/-- The element with the blanks at the ends of all texts taken off. -/
def trimmed : Element → Element
  | .mk name attributes text children => .mk name attributes (Text.trim text) (trimmedAll children)

/-- Elements in a row with their texts trimmed. -/
def trimmedAll : List Element → List Element
  | [] => []
  | e :: rest => trimmed e :: trimmedAll rest

end

theorem trimmedAll_append (es es' : List Element) :
    trimmedAll (es ++ es') = trimmedAll es ++ trimmedAll es' := by
  induction es with
  | nil => rfl
  | cons e rest ih => simp [trimmedAll, ih]

end Element

namespace Builder

mutual

/-- Takes in a whole tree: its element opens, its text and its children come in, and it ends. -/
def addTree (b : Builder) : Element → Except DocumentError Builder
  | .mk name attributes text children => do
    let opened ← b.openElement name attributes
    let filled ← (opened.2.addText text).addTrees children
    .ok filled.closeElement.2

/-- Takes in trees in a row. -/
def addTrees (b : Builder) : List Element → Except DocumentError Builder
  | [] => .ok b
  | e :: rest => do (← b.addTree e).addTrees rest

end

theorem addTree_of_openElement {b opened : Builder} {id : NodeId} {name : QName}
    {attributes : Attributes} {children : List Element}
    (hopen : b.openElement name attributes = .ok (id, opened)) (inside : opened.IsInside)
    (text : String)
    (filled : ∀ {b : Builder}, b.IsInside →
      b.addTrees children = .ok (b.add "" (Element.trimmedAll children))) :
    b.addTree (.mk name attributes text children) =
      .ok (opened.add text (Element.trimmedAll children)).closeElement.2 := by
  have filled := filled (inside.add text [])
  rw [add_add inside, List.nil_append, String.append_empty] at filled
  rw [addTree, hopen]
  change ((opened.addText text).addTrees children >>= fun filled => _) = _
  rw [addText_eq_add, filled]
  rfl

mutual

theorem addTree_eq : ∀ (e : Element) {b : Builder}, b.IsInside →
    b.addTree e = .ok (b.add "" [e.trimmed])
  | .mk name attributes text children, b, inside => by
      obtain ⟨id, opened, hopen, inside', close⟩ := exists_openElement inside name attributes
      rw [addTree_of_openElement hopen inside' text (addTrees_eq children), close,
        Element.trimmed]

/-- Trees that come into an open element are added to it. -/
theorem addTrees_eq : ∀ (es : List Element) {b : Builder}, b.IsInside →
    b.addTrees es = .ok (b.add "" (Element.trimmedAll es))
  | [], b, _ => by rw [addTrees, Element.trimmedAll, add_nothing]
  | e :: rest, b, inside => by
      have others := addTrees_eq rest (inside.add "" [e.trimmed])
      rw [add_add inside, List.singleton_append, String.append_empty] at others
      rw [addTrees, addTree_eq e inside, Element.trimmedAll, ← others]
      rfl

end

end Builder

namespace Document

/-- The document of a tree. -/
def build (e : Element) : Except DocumentError Document := do
  (← Builder.empty.addTree e).finish

theorem exists_build (e : Element) : ∃ d, build e = .ok d ∧ d.root = e.trimmed := by
  cases e with
  | mk name attributes text children =>
    obtain ⟨id, b, hopen, inside, close⟩ := Builder.exists_openElement_empty name attributes
    obtain ⟨d, finish, root⟩ := close text (Element.trimmedAll children)
    refine ⟨d, ?_, root⟩
    rw [build, Builder.addTree_of_openElement hopen inside text (Builder.addTrees_eq children)]
    exact finish

end Document

end Calcsheet
