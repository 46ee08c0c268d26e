import Calcsheet.Code.SourceFile
import Calcsheet.Proofs.Element

/-!
# Visits in document order

The generator goes down the tree of a worksheet, but all that it gives can be read off one list: the
elements below the root in document order, each with the kind of its parent (`visitsOf`). What an
element gives for itself depends on nothing else, and what a worksheet gives is that, one element
after another, up to the first error (`emitRoot_eq_joined`).
-/

namespace Calcsheet.Code

/-- An element that is met inside a parent of some kind. -/
structure Visit where
  parent : Kind
  element : Element

/-- What the element gives for itself. -/
def Visit.emission (v : Visit) : Except Unsupported Emission :=
  emitOwn v.parent v.element

mutual

/-- The element and all below it, in document order. -/
def visits (parent : Kind) : Element → List Visit
  | .mk name attributes text children =>
    ⟨parent, .mk name attributes text children⟩ :: visitsOf (Kind.of name) children

/-- Elements in a row and all below them, in document order. -/
def visitsOf (parent : Kind) : List Element → List Visit
  | [] => []
  | e :: rest => visits parent e ++ visitsOf parent rest

end

theorem visits_eq (parent : Kind) (e : Element) :
    visits parent e = ⟨parent, e⟩ :: visitsOf e.kind e.children := by
  cases e
  rw [visits]
  rfl

theorem visitsOf_eq (parent : Kind) (es : List Element) :
    visitsOf parent es = es.flatMap (visits parent) := by
  induction es with
  | nil => rfl
  | cons e rest ih => rw [visitsOf, ih, List.flatMap_cons]

theorem visitsOf_append (parent : Kind) (es es' : List Element) :
    visitsOf parent (es ++ es') = visitsOf parent es ++ visitsOf parent es' := by
  rw [visitsOf_eq, visitsOf_eq, visitsOf_eq, List.flatMap_append]

mutual

theorem map_element_visits (parent : Kind) :
    ∀ e : Element, (visits parent e).map Visit.element = e :: e.descendants
  | .mk name attributes text children => by
      rw [visits, Element.descendants, List.map_cons, map_element_visitsOf]

/-- The elements are visited in document order. -/
theorem map_element_visitsOf (parent : Kind) :
    ∀ es : List Element, (visitsOf parent es).map Visit.element = Element.subtrees es
  | [] => rfl
  | e :: rest => by
      rw [visitsOf, Element.subtrees, List.map_append, map_element_visits,
        map_element_visitsOf, List.cons_append]

end

/-- The elements below `root` are visited, each in its parent. -/
theorem mem_visitsOf_iff {v : Visit} {root : Element} :
    v ∈ visitsOf root.kind root.children ↔
      ∃ p, (p = root ∨ p ∈ root.descendants) ∧ ∃ c ∈ p.children, v = ⟨p.kind, c⟩ := by
  induction root using Element.inductionBelow with
  | step root below =>
    have unfolded (c : Element) :
        v ∈ visits root.kind c ↔ v = ⟨root.kind, c⟩ ∨ v ∈ visitsOf c.kind c.children := by
      rw [visits_eq, List.mem_cons]
    simp only [visitsOf_eq root.kind, List.mem_flatMap, unfolded]
    constructor
    · rintro ⟨c, hc, rfl | hv⟩
      · exact ⟨root, .inl rfl, c, hc, rfl⟩
      · obtain ⟨p, hp, d, hd, rfl⟩ := (below c (Element.mem_descendants_of_mem_children hc)).1 hv
        exact ⟨p, .inr (Element.mem_descendants_iff.2 ⟨c, hc, hp⟩), d, hd, rfl⟩
    · rintro ⟨p, rfl | hp, c, hc, rfl⟩
      · exact ⟨c, hc, .inl rfl⟩
      · obtain ⟨d, hd, hp⟩ := Element.mem_descendants_iff.1 hp
        have inner := (below d (Element.mem_descendants_of_mem_children hd)).2 ⟨p, hp, c, hc, rfl⟩
        exact ⟨d, hd, .inr inner⟩

/-! ## Emissions in a row -/

namespace Emission

theorem empty_append (a : Emission) : ({} : Emission) ++ a = a := by
  cases a
  rfl

theorem append_assoc (a b c : Emission) : a ++ b ++ c = a ++ (b ++ c) := by
  change append (append a b) c = append a (append b c)
  simp [append]

end Emission

/-- Emissions one after another, up to the first error. -/
def joined : List (Except Unsupported Emission) → Except Unsupported Emission
  | [] => .ok {}
  | x :: rest => do
    let first ← x
    let others ← joined rest
    .ok (first ++ others)

theorem joined_append (xs ys : List (Except Unsupported Emission)) :
    joined (xs ++ ys) =
      (do
        let first ← joined xs
        let others ← joined ys
        .ok (first ++ others)) := by
  induction xs with
  | nil =>
    rw [List.nil_append, joined]
    cases joined ys with
    | error u => rfl
    | ok b => exact congrArg Except.ok (Emission.empty_append b).symm
  | cons x rest ih =>
    rw [List.cons_append, joined, joined, ih]
    cases x with
    | error u => rfl
    | ok a =>
      cases joined rest with
      | error u => rfl
      | ok b =>
        cases joined ys with
        | error u => rfl
        | ok c => exact congrArg Except.ok (Emission.append_assoc a b c).symm

mutual

theorem emitElement_eq_joined (parent : Kind) :
    ∀ e : Element, emitElement parent e = joined ((visits parent e).map Visit.emission)
  | .mk name attributes text children => by
      rw [emitElement, emitElements_eq_joined, visits, List.map_cons, joined]
      rfl

theorem emitElements_eq_joined (parent : Kind) :
    ∀ es : List Element, emitElements parent es = joined ((visitsOf parent es).map Visit.emission)
  | [] => by rw [emitElements, visitsOf, List.map_nil, joined]
  | e :: rest => by
      rw [emitElements, visitsOf, List.map_append, joined_append, emitElement_eq_joined,
        emitElements_eq_joined]

end

/-- A worksheet gives what its elements give, in document order. -/
theorem emitRoot_eq_joined (root : Element) :
    emitRoot root = joined ((visitsOf root.kind root.children).map Visit.emission) :=
  emitElements_eq_joined root.kind root.children

end Calcsheet.Code
