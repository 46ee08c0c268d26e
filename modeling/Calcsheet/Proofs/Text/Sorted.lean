import Calcsheet.Text.Basic

/-!
# Sorted names

`sortedNames` holds exactly the names of a list (`mem_sortedNames`) in strictly increasing order, so
each of them once (`pairwise_sortedNames`). `sortOn` holds the members of a list (`mem_sortOn`), no
key before a smaller one (`pairwise_sortOn`), keys that are all different in increasing order
(`pairwise_lt_sortOn`), and leaving members out before or after makes no difference
(`filter_sortOn`).
-/

namespace Calcsheet.Text

theorem mem_insertName {n name : String} {names : List String} :
    n ∈ insertName name names ↔ n = name ∨ n ∈ names := by
  induction names with
  | nil => simp [insertName]
  | cons other rest ih =>
    rw [insertName]
    split
    · simp
    · split
      · next same => simp [same]
      · simp only [List.mem_cons, ih]
        exact or_left_comm

theorem mem_sortedNames {n : String} {names : List String} : n ∈ sortedNames names ↔ n ∈ names := by
  induction names with
  | nil => simp [sortedNames]
  | cons name rest ih => rw [sortedNames, mem_insertName, ih, List.mem_cons]

theorem pairwise_insertName {name : String} {names : List String}
    (increasing : names.Pairwise (· < ·)) : (insertName name names).Pairwise (· < ·) := by
  induction names with
  | nil => simp [insertName]
  | cons other rest ih =>
    obtain ⟨least, increasing⟩ := List.pairwise_cons.1 increasing
    rw [insertName]
    split
    · next less =>
      refine List.pairwise_cons.2 ⟨fun n hn => ?_, List.pairwise_cons.2 ⟨least, increasing⟩⟩
      rcases List.mem_cons.1 hn with rfl | hn
      · exact less
      · exact String.lt_trans less (least n hn)
    · next notLess =>
      split
      · exact List.pairwise_cons.2 ⟨least, increasing⟩
      · next different =>
        refine List.pairwise_cons.2 ⟨fun n hn => ?_, ih increasing⟩
        rcases mem_insertName.1 hn with rfl | hn
        · -- neither below `other` nor equal to it
          rw [← String.not_le]
          exact fun h => different (String.le_antisymm h (String.not_lt.1 notLess))
        · exact least n hn

theorem pairwise_sortedNames (names : List String) : (sortedNames names).Pairwise (· < ·) := by
  induction names with
  | nil => exact .nil
  | cons name rest ih => exact pairwise_insertName ih

/-! ## Ordering by keys -/

variable {α : Type} {key : α → String}

theorem mem_insertOn {a b : α} {as : List α} : b ∈ insertOn key a as ↔ b = a ∨ b ∈ as := by
  induction as with
  | nil => simp [insertOn]
  | cons c rest ih =>
    rw [insertOn]
    split
    · simp only [List.mem_cons, ih]
      exact or_left_comm
    · simp

theorem mem_sortOn {b : α} {as : List α} : b ∈ sortOn key as ↔ b ∈ as := by
  induction as with
  | nil => simp [sortOn]
  | cons a rest ih => rw [sortOn, mem_insertOn, ih, List.mem_cons]

theorem not_key_lt_trans {a b c : α} (hab : ¬ key b < key a) (hbc : ¬ key c < key b) :
    ¬ key c < key a :=
  String.not_lt.2 (String.le_trans (String.not_lt.1 hab) (String.not_lt.1 hbc))

theorem pairwise_insertOn {a : α} {as : List α}
    (ordered : as.Pairwise fun b c => ¬ key c < key b) :
    (insertOn key a as).Pairwise fun b c => ¬ key c < key b := by
  induction as with
  | nil => simp [insertOn]
  | cons b rest ih =>
    obtain ⟨least, inner⟩ := List.pairwise_cons.1 ordered
    rw [insertOn]
    split
    · next less =>
      refine List.pairwise_cons.2 ⟨fun c hc => ?_, ih inner⟩
      rcases mem_insertOn.1 hc with rfl | hc
      · exact String.lt_asymm less
      · exact least c hc
    · next notLess =>
      refine List.pairwise_cons.2 ⟨fun c hc => ?_, ordered⟩
      rcases List.mem_cons.1 hc with rfl | hc
      · exact notLess
      · exact not_key_lt_trans notLess (least c hc)

theorem pairwise_sortOn (as : List α) : (sortOn key as).Pairwise fun b c => ¬ key c < key b := by
  induction as with
  | nil => exact .nil
  | cons a rest ih => exact pairwise_insertOn ih

theorem perm_insertOn (a : α) (as : List α) : (insertOn key a as).Perm (a :: as) := by
  induction as with
  | nil => exact .refl _
  | cons b rest ih =>
    rw [insertOn]
    split
    · exact (ih.cons b).trans (.swap a b rest)
    · exact .refl _

theorem perm_sortOn (as : List α) : (sortOn key as).Perm as := by
  induction as with
  | nil => exact .refl _
  | cons a rest ih => exact (perm_insertOn a (sortOn key rest)).trans (ih.cons a)

/-- Keys that are all different stand in strictly increasing order. -/
theorem pairwise_lt_sortOn {as : List α} (distinct : (as.map key).Nodup) :
    (sortOn key as).Pairwise fun b c => key b < key c := by
  have differ : (sortOn key as).Pairwise fun b c => key b ≠ key c :=
    List.pairwise_map.1 ((List.Perm.map key (perm_sortOn as)).nodup_iff.2 distinct)
  refine (pairwise_sortOn as).imp₂ (fun b c notGreater ne => ?_) differ
  rw [← String.not_le]
  exact fun le => ne (String.le_antisymm (String.not_lt.1 notGreater) le)

theorem insertOn_of_least {a : α} {as : List α} (least : ∀ b ∈ as, ¬ key b < key a) :
    insertOn key a as = a :: as := by
  cases as with
  | nil => rfl
  | cons b rest => rw [insertOn, if_neg (least b List.mem_cons_self)]

theorem filter_insertOn {a : α} {as : List α} (ordered : as.Pairwise fun b c => ¬ key c < key b)
    (p : α → Bool) :
    (insertOn key a as).filter p =
      if p a then insertOn key a (as.filter p) else as.filter p := by
  induction as with
  | nil =>
    rw [insertOn, List.filter_cons]
    rfl
  | cons b rest ih =>
    obtain ⟨least, inner⟩ := List.pairwise_cons.1 ordered
    rw [insertOn]
    split
    · next less =>
      rw [List.filter_cons, List.filter_cons, ih inner]
      cases p a <;> cases p b <;> simp [insertOn, less]
    · next notLess =>
      -- nothing in the list has a smaller key, so nothing that is left has
      have front : ∀ c ∈ (b :: rest).filter p, ¬ key c < key a := by
        intro c hc
        rcases List.mem_cons.1 (List.mem_filter.1 hc).1 with rfl | hc
        · exact notLess
        · exact not_key_lt_trans notLess (least c hc)
      rw [insertOn_of_least front, List.filter_cons]

theorem filter_sortOn (p : α → Bool) (as : List α) :
    (sortOn key as).filter p = sortOn key (as.filter p) := by
  induction as with
  | nil => rfl
  | cons a rest ih =>
    rw [sortOn, filter_insertOn (pairwise_sortOn rest), ih, List.filter_cons]
    split <;> rfl

end Calcsheet.Text
