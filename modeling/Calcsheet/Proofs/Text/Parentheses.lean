import Calcsheet.Text.Basic

/-!
# The depth of parentheses

The depth after some characters is the number of parentheses that they open less the number that
they close. A text is `Level` if its depth is zero at the end and never below zero on the way. A
text is `Enclosed` if it begins with a parenthesis whose partner is its last character: the depth is
zero at the end, and not before. Level texts in parentheses are such texts (`Level.enclosed`).
-/

namespace Calcsheet.Text

/-- The parentheses. -/
def parentheses : List Char :=
  ['(', ')']

/-- The parentheses that are open after some characters. -/
def parenDepth (cs : List Char) : Int :=
  (cs.count '(' : Int) - (cs.count ')' : Int)

/-- All that is opened is closed, and nothing else. -/
structure Level (s : String) : Prop where
  total : parenDepth s.toList = 0
  inside : ∀ t, t <+: s.toList → 0 ≤ parenDepth t

/-- The text begins with a parenthesis, and the depth comes back to zero for the first time at the
last character. -/
structure Enclosed (s : String) : Prop where
  opens : s.toList.head? = some '('
  total : parenDepth s.toList = 0
  inside : ∀ t, t <+: s.toList → t ≠ [] → t ≠ s.toList → 0 < parenDepth t

theorem parenDepth_append (t u : List Char) :
    parenDepth (t ++ u) = parenDepth t + parenDepth u := by
  simp only [parenDepth, List.count_append]
  omega

theorem parenDepth_opening (cs : List Char) : parenDepth ('(' :: cs) = 1 + parenDepth cs :=
  parenDepth_append ['('] cs

theorem parenDepth_of_not_mem {cs : List Char} (h : ∀ c ∈ cs, c ∉ parentheses) :
    parenDepth cs = 0 := by
  have opening : cs.count '(' = 0 := List.count_eq_zero.2 fun mem => h _ mem (by decide)
  have closing : cs.count ')' = 0 := List.count_eq_zero.2 fun mem => h _ mem (by decide)
  rw [parenDepth, opening, closing]
  rfl

/-! ## Level texts -/

theorem level_of_not_mem {s : String} (h : ∀ c ∈ s.toList, c ∉ parentheses) : Level s where
  total := parenDepth_of_not_mem h
  inside _ ht := Int.le_of_eq (parenDepth_of_not_mem fun c hc => h c (ht.subset hc)).symm

theorem level_empty : Level "" :=
  level_of_not_mem (by simp)

theorem Level.append {s t : String} (hs : Level s) (ht : Level t) : Level (s ++ t) where
  total := by
    rw [String.toList_append, parenDepth_append, hs.total, ht.total]
    rfl
  inside u hu := by
    obtain ⟨rest, hu⟩ := hu
    rw [String.toList_append] at hu
    rcases List.append_eq_append_iff.1 hu with ⟨v, hv, -⟩ | ⟨v, rfl, hv⟩
    · exact hs.inside u ⟨v, hv.symm⟩
    · rw [parenDepth_append, hs.total, Int.zero_add]
      exact ht.inside v ⟨rest, hv.symm⟩

theorem level_joinWith {sep : String} {ss : List String} (hsep : Level sep)
    (h : ∀ s ∈ ss, Level s) : Level (joinWith sep ss) := by
  induction ss with
  | nil => exact level_empty
  | cons s rest ih =>
    obtain ⟨first, others⟩ := List.forall_mem_cons.1 h
    cases rest with
    | nil => exact first
    | cons t rest =>
      rw [joinWith_cons _ (List.cons_ne_nil t rest)]
      exact (first.append hsep).append (ih others)

/-! ## Texts in parentheses -/

theorem Level.enclosed {s : String} (h : Level s) : Enclosed ("(" ++ s ++ ")") := by
  have chars : ("(" ++ s ++ ")").toList = '(' :: (s.toList ++ [')']) := by simp
  refine ⟨by rw [chars]; rfl, ?_, fun t ht notNil notAll => ?_⟩
  · rw [chars, parenDepth_opening, parenDepth_append, h.total]
    rfl
  · rw [chars] at ht notAll
    obtain ⟨c, u, rfl⟩ := List.exists_cons_of_ne_nil notNil
    obtain ⟨rfl, hu⟩ := List.cons_prefix_cons.1 ht
    -- what is left of the text before its last character is part of the level text
    rcases List.prefix_concat_iff.1 hu with rfl | hu
    · exact absurd rfl notAll
    · have inside := h.inside u hu
      rw [parenDepth_opening]
      omega

theorem Enclosed.level {s : String} (h : Enclosed s) : Level s where
  total := h.total
  inside t ht := by
    by_cases start : t = []
    · rw [start]
      exact Int.le_refl 0
    · by_cases whole : t = s.toList
      · rw [whole]
        exact Int.le_of_eq h.total.symm
      · exact Int.le_of_lt (h.inside t ht start whole)

end Calcsheet.Text
