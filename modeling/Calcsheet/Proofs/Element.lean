import Calcsheet.Element

/-!
# Induction on elements

What holds of an element as soon as it holds of all that is below it, holds of every element
(`Element.inductionBelow`). Below an element are its children and what is below them.
-/

namespace Calcsheet

namespace Element

theorem mem_subtrees_iff {d : Element} {es : List Element} :
    d ∈ subtrees es ↔ ∃ e ∈ es, d = e ∨ d ∈ e.descendants := by
  induction es with
  | nil => simp [subtrees]
  | cons e rest ih => simp [subtrees, ih, or_assoc]

theorem descendants_eq (e : Element) : e.descendants = subtrees e.children := by
  cases e with
  | mk name attributes text children => rw [descendants, Element.children]

theorem mem_descendants_iff {d e : Element} :
    d ∈ e.descendants ↔ ∃ c ∈ e.children, d = c ∨ d ∈ c.descendants := by
  rw [descendants_eq, mem_subtrees_iff]

theorem mem_descendants_of_mem_children {c e : Element} (h : c ∈ e.children) :
    c ∈ e.descendants :=
  mem_descendants_iff.2 ⟨c, h, .inl rfl⟩

theorem mem_descendants_of_mem_children_children {d c e : Element} (hc : c ∈ e.children)
    (hd : d ∈ c.children) : d ∈ e.descendants :=
  mem_descendants_iff.2 ⟨c, hc, .inr (mem_descendants_of_mem_children hd)⟩

mutual

theorem forall_mem_descendants {P : Element → Prop}
    (step : ∀ e : Element, (∀ d ∈ e.descendants, P d) → P e) :
    ∀ e : Element, ∀ d ∈ e.descendants, P d
  | .mk _ _ _ children => by
      rw [descendants]
      exact forall_mem_subtrees step children

theorem forall_mem_subtrees {P : Element → Prop}
    (step : ∀ e : Element, (∀ d ∈ e.descendants, P d) → P e) :
    ∀ es : List Element, ∀ d ∈ subtrees es, P d
  | [] => by simp [subtrees]
  | e :: rest => by
      have below := forall_mem_descendants step e
      have others := forall_mem_subtrees step rest
      intro d hd
      rw [subtrees, List.mem_cons, List.mem_append] at hd
      rcases hd with rfl | hd | hd
      · exact step d below
      · exact below d hd
      · exact others d hd

end

/-- What holds of an element as soon as it holds of everything below it, holds of every element. -/
theorem inductionBelow {P : Element → Prop}
    (step : ∀ e : Element, (∀ d ∈ e.descendants, P d) → P e) (e : Element) : P e :=
  step e (forall_mem_descendants step e)

theorem mem_descendants_trans {c d e : Element} (hc : c ∈ d.descendants) (hd : d ∈ e.descendants) :
    c ∈ e.descendants := by
  induction e using inductionBelow with
  | step e below =>
    obtain ⟨top, htop, hd⟩ := mem_descendants_iff.1 hd
    refine mem_descendants_iff.2 ⟨top, htop, .inr ?_⟩
    rcases hd with rfl | hd
    · exact hc
    · exact below top (mem_descendants_of_mem_children htop) hd

/-- What is below an element is a child of it or of something below it. -/
theorem mem_descendants_iff_exists_parent {c e : Element} :
    c ∈ e.descendants ↔ ∃ d, (d = e ∨ d ∈ e.descendants) ∧ c ∈ d.children := by
  induction e using inductionBelow with
  | step e below =>
    have through {d : Element} (hd : d ∈ e.children) :=
      below d (mem_descendants_of_mem_children hd)
    constructor
    · intro h
      obtain ⟨d, hd, rfl | hc⟩ := mem_descendants_iff.1 h
      · exact ⟨e, .inl rfl, hd⟩
      · obtain ⟨p, hp, hc⟩ := (through hd).1 hc
        exact ⟨p, .inr (mem_descendants_iff.2 ⟨d, hd, hp⟩), hc⟩
    · rintro ⟨p, rfl | hp, hc⟩
      · exact mem_descendants_of_mem_children hc
      · obtain ⟨d, hd, hp⟩ := mem_descendants_iff.1 hp
        exact mem_descendants_iff.2 ⟨d, hd, .inr ((through hd).2 ⟨p, hp, hc⟩)⟩

end Element

end Calcsheet
