/-!
# Runs in a list and names in a list

A run of characters of one class ends where a character of another class, or nothing, follows.
Looking up a name finds the first value that stands with it (`lookup_eq_some_iff_exists`). Where no
name stands twice this is the only one (`lookup_of_mem`).
-/

namespace Calcsheet

namespace Text

variable {α : Type} {p : α → Bool} {run rest : List α}

theorem takeWhile_run (hrun : ∀ c ∈ run, p c = true) (hrest : ∀ c ∈ rest.head?, p c = false) :
    (run ++ rest).takeWhile p = run := by
  rw [List.takeWhile_append_of_pos hrun]
  cases rest with
  | nil => simp
  | cons c rest => simp [hrest c rfl]

theorem dropWhile_run (hrun : ∀ c ∈ run, p c = true) (hrest : ∀ c ∈ rest.head?, p c = false) :
    (run ++ rest).dropWhile p = rest := by
  rw [List.dropWhile_append_of_pos hrun]
  cases rest with
  | nil => rfl
  | cons c rest => simp [hrest c rfl]

/-- A run that ends in a text or with it ends there however the text goes on. -/
theorem takeWhile_append_right {s t : List α}
    (stop : ∀ c ∈ (s.dropWhile p ++ t).head?, p c = false) :
    (s ++ t).takeWhile p = s.takeWhile p ∧ (s ++ t).dropWhile p = s.dropWhile p ++ t := by
  have inRun : ∀ c ∈ s.takeWhile p, p c = true := List.all_eq_true.1 List.all_takeWhile
  have parts : s ++ t = s.takeWhile p ++ (s.dropWhile p ++ t) := by
    rw [← List.append_assoc, List.takeWhile_append_dropWhile]
  rw [parts]
  exact ⟨takeWhile_run inRun stop, dropWhile_run inRun stop⟩

end Text

/-! ## Names with values -/

variable {α : Type} {name : String} {a : α} {entries : List (String × α)}

theorem lookup_cons_eq (name : String) (e : String × α) (rest : List (String × α)) :
    (e :: rest).lookup name = if name = e.1 then some e.2 else rest.lookup name := by
  rw [List.lookup_cons]
  by_cases same : name = e.1
  · simp [same]
  · rw [beq_false_of_ne same, if_neg same]

theorem not_mem_names_iff : name ∉ entries.map Prod.fst ↔ ∀ e ∈ entries, (name != e.1) = true := by
  simp only [List.mem_map, not_exists, not_and, bne_iff_ne, ne_comm, ne_eq]

theorem lookup_eq_none_iff_not_mem : entries.lookup name = none ↔ name ∉ entries.map Prod.fst :=
  List.lookup_eq_none_iff.trans not_mem_names_iff.symm

theorem lookup_eq_some_iff_exists :
    entries.lookup name = some a ↔
      ∃ before after, entries = before ++ (name, a) :: after ∧ name ∉ before.map Prod.fst := by
  simp only [List.lookup_eq_some_iff, not_mem_names_iff]

theorem mem_of_lookup (h : entries.lookup name = some a) : (name, a) ∈ entries := by
  obtain ⟨before, after, rfl, -⟩ := List.lookup_eq_some_iff.1 h
  exact List.mem_append_right before List.mem_cons_self

theorem lookup_of_mem {e : String × α} (names : (entries.map Prod.fst).Nodup) (h : e ∈ entries) :
    entries.lookup e.1 = some e.2 := by
  induction entries with
  | nil => cases h
  | cons first rest ih =>
    obtain ⟨fresh, names⟩ := List.nodup_cons.1 names
    rw [lookup_cons_eq]
    rcases List.mem_cons.1 h with rfl | h
    · rw [if_pos rfl]
    · have : e.1 ≠ first.1 := fun same => fresh (same ▸ List.mem_map_of_mem h)
      rw [if_neg this, ih names h]

end Calcsheet
