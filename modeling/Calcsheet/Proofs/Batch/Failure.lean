import Calcsheet.Proofs.Batch.Plan

/-!
# What a worksheet that fails leaves behind

All of a worksheet is read, decoded and generated before anything is written, so a failure before
that leaves the tree as it was. A failure while folders are made and files are written leaves what
was done until then. It leaves no trace exactly if each path that the actions touch leads to what it
led to before (`entryAt_convertOne_of_error`).
-/

namespace Calcsheet.Batch

open FileTree

variable {options : Options} {root file : Path} {tree tree' : FileTree}

/-- A worksheet that cannot be read, decoded and translated leaves the tree as it was. A worksheet
that fails at all leaves everything as it was exactly if each path of its actions leads to what it
led to before. -/
theorem entryAt_convertOne_of_error {failure : Failure}
    (h : convertOne options root tree file = (tree', .error failure)) :
    (codeOf? options tree file = none → tree' = tree) ∧
      ((∀ place, tree'.entryAt place = tree.entryAt place) ↔
        ∀ action ∈ actionsFor options root tree file, ∀ p ∈ action.paths,
          tree'.sight p = tree.sight p) := by
  have htree : tree' = (tree.actAll (actionsFor options root tree file)).1 := by
    rw [← convertOne_tree, h]
  refine ⟨fun none => ?_, fun same action _ p _ => sight_congr same p, fun same => ?_⟩
  · rw [htree, actionsFor_of_none none]
    rfl
  · -- what is seen along the paths of the actions decides what is seen anywhere
    have shows := showsAt_actAll tree (actionsFor options root tree file)
    rw [← htree] at shows
    refine shows.entryAt_eq fun p hp => ?_
    obtain ⟨action, haction, hp⟩ := List.mem_flatMap.1 hp
    exact same action haction p hp

/-! ## An attachment that cannot be written -/

/-- A worksheet with an attachment whose name leads into a folder that is not there. -/
def slashedItem : String :=
  "<w xmlns=\"http://schemas.mathsoft.com/worksheet30\">" ++
    "<binaryContent><i item-id=\"x/y\"/></binaryContent></w>"

/-- A folder with this worksheet. -/
def slashedItemTree : FileTree :=
  .folder [("w", .folder [("a.xmcd", .file slashedItem.toUTF8)])]

theorem exists_error_slashedItem :
    ∃ failure, (convertOne {} ⟨"w"⟩ slashedItemTree ⟨"w/a.xmcd"⟩).2 = .error failure := by
  have none : (convertOne {} ⟨"w"⟩ slashedItemTree ⟨"w/a.xmcd"⟩).2.toOption = none := by
    apply Option.isNone_iff_eq_none.1
    decide +kernel
  cases h : (convertOne {} ⟨"w"⟩ slashedItemTree ⟨"w/a.xmcd"⟩).2 with
  | error failure => exact ⟨failure, rfl⟩
  | ok plan => simp [h, Except.toOption] at none

theorem entryAt_convertOne_slashedItem :
    ∃ tree' failure, convertOne {} ⟨"w"⟩ slashedItemTree ⟨"w/a.xmcd"⟩ = (tree', .error failure) ∧
      (codeOf? {} slashedItemTree ⟨"w/a.xmcd"⟩ = none → tree' = slashedItemTree) ∧
      ((∀ place, tree'.entryAt place = slashedItemTree.entryAt place) ↔
        ∀ action ∈ actionsFor {} ⟨"w"⟩ slashedItemTree ⟨"w/a.xmcd"⟩, ∀ p ∈ action.paths,
          tree'.sight p = slashedItemTree.sight p) := by
  obtain ⟨failure, h⟩ := exists_error_slashedItem
  exact ⟨_, failure, Prod.ext rfl h, entryAt_convertOne_of_error (Prod.ext rfl h)⟩

/-- The worksheet is found and fails, and a source file has come to be. -/
theorem entryAt_convertOne_slashedItem_ne :
    discover slashedItemTree ⟨"w"⟩ ⟨"w/Net"⟩ = .ok [⟨"w/a.xmcd"⟩] ∧
      (∃ failure, (convertOne {} ⟨"w"⟩ slashedItemTree ⟨"w/a.xmcd"⟩).2 = .error failure) ∧
      slashedItemTree.entryAt ["w", "Net", "a.cs"] = none ∧
      (convertOne {} ⟨"w"⟩ slashedItemTree ⟨"w/a.xmcd"⟩).1.entryAt ["w", "Net", "a.cs"] ≠ none :=
  ⟨toOption_eq_some_iff.1 (by decide +kernel), exists_error_slashedItem, by decide +kernel,
    by decide +kernel⟩

end Calcsheet.Batch
