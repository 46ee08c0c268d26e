import Calcsheet.Proofs.Attachments
import Mathlib.Data.List.Dedup

/-!
# Which files hold the attachments

If extracting succeeds, every attachment was written, one after another, each at its place. So the
path of an attachment leads to a file that holds the last attachment with that place
(`exists_files_of_extract`). Attachments with different places are all kept. Those with one place,
such as two with one id, are written over each other, and the count that is told is greater than
the number of files.
-/

namespace Calcsheet

open FileTree Calcsheet.Path

namespace FileTree

/-! ## Actions that succeed -/

section Done

variable {tree : FileTree} {p : Path} {content : ByteArray}

theorem locate_of_write {written : FileTree} (h : tree.write p content = .ok written) :
    written.locate p = .ok (resolve [] (steps p)) := by
  obtain ⟨slash, place, name, aims, notFolder, becomes⟩ := exists_of_write h
  rw [aims.resolve_eq]
  exact (aims.of_grows (becomes.grows_of_file notFolder)).locate becomes.entryAt_self
    (by simp [slash])

/-- The path of a file that was written leads to its place when all is done. -/
theorem locate_of_actAll {actions : List Action} (done : (tree.actAll actions).2 = none)
    (h : .write p content ∈ actions) :
    (tree.actAll actions).1.locate p = .ok (resolve [] (steps p)) := by
  induction actions generalizing tree with
  | nil => cases h
  | cons action rest ih =>
    obtain ⟨first, later⟩ := actAll_cons_of_none done
    rw [later] at done ⊢
    rcases List.mem_cons.1 h with rfl | h
    · obtain ⟨written, hwrite⟩ := exists_write_of_act_none first
      rw [act_write_of_ok hwrite]
      exact (grows_actAll written rest).locate (locate_of_write hwrite)
    · exact ih done h

theorem read_of_locate {place : Place} (located : tree.locate p = .ok place)
    (file : tree.fileAt place = some content) : tree.read p = .ok content :=
  read_eq_ok_iff.2 (sight_eq_ok_iff.2 ⟨place, located, fileAt_eq_some_iff.1 file⟩)

/-- What files that are written one after another leave at a place, in order. -/
theorem writtenAt_writes {α : Type} {as : List α} (path : α → Path) (content : α → ByteArray)
    (done : (tree.actAll (as.map fun a => .write (path a) (content a))).2 = none) (q : Place) :
    writtenAt q tree (as.map fun a => .write (path a) (content a)) =
      (as.filter fun a => resolve [] (steps (path a)) = q).map content := by
  induction as generalizing tree with
  | nil => rfl
  | cons a rest ih =>
    rw [List.map_cons] at done ⊢
    obtain ⟨first, later⟩ := actAll_cons_of_none done
    rw [later] at done
    obtain ⟨written, hwrite⟩ := exists_write_of_act_none first
    obtain ⟨-, place, name, aims, -⟩ := exists_of_write hwrite
    rw [writtenAt, if_neg (by simp [first]), ih done, written?_of_write hwrite aims,
      ← aims.resolve_eq, List.filter_cons]
    by_cases here : resolve [] (steps (path a)) = q
    · simp [here]
    · simp [here]

end Done

end FileTree

namespace Attachment

/-- The path of an attachment of the worksheet with a stem. -/
def path (destination : Path) (stem : String) (a : Attachment) : Path :=
  ((destination.join ⟨"bin"⟩).join ⟨stem⟩).join ⟨"item" ++ a.itemId ++ ".png"⟩

/-- The attachments in the list that are at the place of `a`. -/
def rivals (destination : Path) (stem : String) (attachments : List Attachment) (a : Attachment) :
    List Attachment :=
  attachments.filter fun b => b.place destination stem = a.place destination stem

section Rivals

variable {tree : FileTree} {destination : Path} {stem : String} {attachments : List Attachment}
  {a b : Attachment}

theorem steps_fileName (noSlash : '/' ∉ a.itemId.toList) : steps ⟨a.fileName⟩ = [a.fileName] := by
  have noSlash : '/' ∉ a.fileName.toList := by
    simp [fileName, noSlash]
  have notEmpty : a.fileName ≠ "" := by
    simp [fileName]
  rw [steps_eq, piecesOf_of_not_mem noSlash]
  simp [notEmpty]

theorem isProperName_fileName (a : Attachment) : isProperName a.fileName = true := by
  have first : a.fileName.toList.head? = some 'i' := by simp [fileName]
  refine isProperName_iff.2 ⟨fun here => ?_, fun up => ?_⟩
  · simp [here] at first
  · simp [up] at first

/-- Ids without slashes that differ give different places. -/
theorem itemId_eq_of_place_eq (ha : '/' ∉ a.itemId.toList) (hb : '/' ∉ b.itemId.toList)
    (same : a.place destination stem = b.place destination stem) : a.itemId = b.itemId := by
  have place_eq {c : Attachment} (hc : '/' ∉ c.itemId.toList) : c.place destination stem =
      resolve (binPlace destination) (steps ⟨stem⟩) ++ [c.fileName] := by
    obtain ⟨notHere, notUp⟩ := isProperName_iff.1 c.isProperName_fileName
    rw [place, resolve_append, steps_fileName hc, resolve, if_neg notHere, if_neg notUp, resolve]
  rw [place_eq ha, place_eq hb] at same
  have names : a.fileName = b.fileName := by simpa using same
  simpa [fileName, String.append_assoc, ← String.toList_inj] using names

theorem nodup_places (noSlash : ∀ a ∈ attachments, '/' ∉ a.itemId.toList)
    (ids : (attachments.map itemId).Nodup) :
    (attachments.map (place destination stem)).Nodup := by
  rw [List.Nodup, List.pairwise_map] at ids ⊢
  refine ids.imp_of_mem fun {a b} ha hb ne same => ne ?_
  exact itemId_eq_of_place_eq (noSlash a ha) (noSlash b hb) same

/-- An attachment with a place of its own has no rivals but itself. -/
theorem rivals_eq_singleton (places : (attachments.map (place destination stem)).Nodup)
    (ha : a ∈ attachments) : rivals destination stem attachments a = [a] := by
  induction attachments with
  | nil => cases ha
  | cons first rest ih =>
    rw [List.map_cons, List.nodup_cons] at places
    obtain ⟨fresh, places⟩ := places
    rcases List.mem_cons.1 ha with rfl | ha
    · have none : rivals destination stem rest a = [] := by
        refine List.filter_eq_nil_iff.2 fun b hb same => fresh ?_
        exact List.mem_map.2 ⟨b, hb, by simpa using same⟩
      rw [rivals, List.filter_cons, if_pos (by simp)]
      exact congrArg _ none
    · have other : ¬ first.place destination stem = a.place destination stem := fun same =>
        fresh (List.mem_map.2 ⟨a, ha, same.symm⟩)
      rw [rivals, List.filter_cons, if_neg (by simpa using other)]
      exact ih places ha

/-- What is written at a place when attachments are written. -/
theorem writtenAt_actions (noSlash : '/' ∉ stem.toList)
    (done : (tree.actAll (actions destination stem attachments)).2 = none) (q : Place) :
    writtenAt q tree (actions destination stem attachments) =
      (attachments.filter fun a => a.place destination stem = q).map fun a => ⟨a.data.toArray⟩ := by
  unfold actions at done ⊢
  split
  · next none => simp [List.isEmpty_iff.1 none, writtenAt]
  · next some =>
    rw [if_neg some] at done
    obtain ⟨made, later⟩ := actAll_cons_of_none done
    rw [later] at done
    have made' : Action.written? tree q (.makeFolders (folder destination stem)) = none := rfl
    rw [writtenAt, made', if_neg (by simp [made]), writtenAt_writes _ _ done]
    simp only [resolve_steps noSlash, Option.toList_none, List.nil_append]

end Rivals

end Attachment

section Extract

variable {tree : FileTree} {destination document : Path} {n : Nat}

theorem extract_eq_ok (done : (extract tree destination document).2 = .ok n) :
    ∃ attachments, attachmentsOf tree document = .ok attachments ∧ attachments.length = n ∧
      (tree.actAll (Attachment.actions destination document.stem attachments)).2 = none := by
  unfold extract at done
  split at done
  · cases done
  · next attachments hread =>
    split at done
    · cases done
    · next written hdone =>
      exact ⟨attachments, hread, Except.ok.inj done, by rw [hdone]⟩

/-- The path of an attachment leads to the last of those that were written at its place. -/
theorem exists_read_path {attachments : List Attachment} {a : Attachment}
    (hread : attachmentsOf tree document = .ok attachments)
    (done : (tree.actAll (Attachment.actions destination document.stem attachments)).2 = none)
    (ha : a ∈ attachments) :
    ∃ b, (a.rivals destination document.stem attachments).getLast? = some b ∧
      (extract tree destination document).1.read (a.path destination document.stem) =
        .ok ⟨b.data.toArray⟩ := by
  have noSlash := slash_not_mem_stem document
  have notNil : a.rivals destination document.stem attachments ≠ [] :=
    List.ne_nil_of_mem (List.mem_filter.2 ⟨ha, by simp⟩)
  obtain ⟨b, last⟩ : ∃ b, (a.rivals destination document.stem attachments).getLast? = some b :=
    ⟨_, List.getLast?_eq_some_getLast notNil⟩
  refine ⟨b, last, ?_⟩
  have written : .write (a.path destination document.stem) ⟨a.data.toArray⟩ ∈
      Attachment.actions destination document.stem attachments := by
    unfold Attachment.actions
    rw [if_neg (by simpa using List.ne_nil_of_mem ha)]
    exact List.mem_cons_of_mem _ (List.mem_map.2 ⟨a, ha, rfl⟩)
  have located := locate_of_actAll done written
  rw [extract_of_ok hread]
  refine read_of_locate located ?_
  have place : resolve [] (steps (a.path destination document.stem)) =
      a.place destination document.stem := Attachment.resolve_steps noSlash
  rw [place, fileAt_actAll, Attachment.writtenAt_actions noSlash done, List.getLast?_map]
  rw [Attachment.rivals] at last
  rw [last, Option.map_some, Option.some_or]

/-- If extracting succeeds, it tells how many attachments there are, and each path of an attachment
leads to the last attachment that was written there. As many files are written as it tells exactly
if no two attachments have one place, and then each path leads to its attachment. Ids that differ
and have no slashes suffice for that. -/
theorem exists_files_of_extract (done : (extract tree destination document).2 = .ok n) :
    ∃ (attachments : List Attachment) (files : List Place),
      attachmentsOf tree document = .ok attachments ∧ attachments.length = n ∧
      files.Nodup ∧
      (∀ q, q ∈ files ↔
        writtenAt q tree (Attachment.actions destination document.stem attachments) ≠ []) ∧
      (∀ a ∈ attachments, ∃ b, (a.rivals destination document.stem attachments).getLast? = some b ∧
        (extract tree destination document).1.read (a.path destination document.stem) =
          .ok ⟨b.data.toArray⟩) ∧
      (files.length = n ↔ (attachments.map (Attachment.place destination document.stem)).Nodup) ∧
      (files.length = n → ∀ a ∈ attachments,
        (extract tree destination document).1.read (a.path destination document.stem) =
          .ok ⟨a.data.toArray⟩) ∧
      ((∀ a ∈ attachments, '/' ∉ a.itemId.toList) → (attachments.map Attachment.itemId).Nodup →
        files.length = n) := by
  obtain ⟨attachments, hread, hlength, hdone⟩ := extract_eq_ok done
  have paths {a : Attachment} (ha : a ∈ attachments) := exists_read_path hread hdone ha
  have count : (attachments.map (Attachment.place destination document.stem)).dedup.length = n ↔
      (attachments.map (Attachment.place destination document.stem)).Nodup := by
    rw [← hlength, ← List.length_map (Attachment.place destination document.stem),
      ← List.dedup_eq_self]
    exact ⟨(List.dedup_sublist _).eq_of_length, congrArg List.length⟩
  refine ⟨attachments, _, hread, hlength, List.nodup_dedup _, fun q => ?_, fun a ha => paths ha,
    count, fun all a ha => ?_, fun noSlash ids => ?_⟩
  · rw [Attachment.writtenAt_actions (slash_not_mem_stem document) hdone, List.mem_dedup,
      List.mem_map, Ne, List.map_eq_nil_iff, List.filter_eq_nil_iff]
    simp
  · obtain ⟨b, last, read⟩ := paths ha
    rw [Attachment.rivals_eq_singleton (count.1 all) ha] at last
    obtain rfl : a = b := by simpa using last
    exact read
  · exact count.2 (Attachment.nodup_places noSlash ids)

end Extract

/-! ## Two attachments with one id -/

/-- A worksheet with two attachments. -/
def pairSheet (itemId itemId' : String) : String :=
  "<w xmlns=\"http://schemas.mathsoft.com/worksheet30\"><binaryContent><i item-id=\"" ++ itemId ++
    "\">aGk=</i><i item-id=\"" ++ itemId' ++ "\">eW8=</i></binaryContent></w>"

/-- Two such worksheets. In one of them both attachments have one id. -/
def pairTree : FileTree :=
  .folder
    [("w", .folder
      [("a.xmcd", .file (pairSheet "1" "2").toUTF8), ("b.xmcd", .file (pairSheet "1" "1").toUTF8)])]

theorem attachmentsOf_pairTree :
    attachmentsOf pairTree ⟨"w/a.xmcd"⟩ = .ok [⟨"1", [104, 105]⟩, ⟨"2", [121, 111]⟩] :=
  toOption_eq_some_iff.1 (by decide +kernel)

theorem attachmentsOf_pairTree_twice :
    attachmentsOf pairTree ⟨"w/b.xmcd"⟩ = .ok [⟨"1", [104, 105]⟩, ⟨"1", [121, 111]⟩] :=
  toOption_eq_some_iff.1 (by decide +kernel)

theorem exists_files_pairTree :
    (extract pairTree ⟨"out"⟩ ⟨"w/a.xmcd"⟩).2 = .ok 2 ∧
      ((extract pairTree ⟨"out"⟩ ⟨"w/a.xmcd"⟩).1.read ⟨"out/bin/a/item1.png"⟩).toOption =
        some "hi".toUTF8 ∧
      ∃ (attachments : List Attachment) (files : List Place),
        attachmentsOf pairTree ⟨"w/a.xmcd"⟩ = .ok attachments ∧ attachments.length = 2 ∧
        files.Nodup ∧
        (∀ q, q ∈ files ↔ writtenAt q pairTree
          (Attachment.actions ⟨"out"⟩ (⟨"w/a.xmcd"⟩ : Path).stem attachments) ≠ []) ∧
        (∀ a ∈ attachments, ∃ b,
          (a.rivals ⟨"out"⟩ (⟨"w/a.xmcd"⟩ : Path).stem attachments).getLast? = some b ∧
          (extract pairTree ⟨"out"⟩ ⟨"w/a.xmcd"⟩).1.read
            (a.path ⟨"out"⟩ (⟨"w/a.xmcd"⟩ : Path).stem) = .ok ⟨b.data.toArray⟩) ∧
        (files.length = 2 ↔
          (attachments.map (Attachment.place ⟨"out"⟩ (⟨"w/a.xmcd"⟩ : Path).stem)).Nodup) ∧
        (files.length = 2 → ∀ a ∈ attachments,
          (extract pairTree ⟨"out"⟩ ⟨"w/a.xmcd"⟩).1.read
            (a.path ⟨"out"⟩ (⟨"w/a.xmcd"⟩ : Path).stem) = .ok ⟨a.data.toArray⟩) ∧
        ((∀ a ∈ attachments, '/' ∉ a.itemId.toList) → (attachments.map Attachment.itemId).Nodup →
          files.length = 2) := by
  have done : (extract pairTree ⟨"out"⟩ ⟨"w/a.xmcd"⟩).2 = .ok 2 := by
    rw [extract, attachmentsOf_pairTree]
    exact toOption_eq_some_iff.1 (by decide +kernel)
  refine ⟨done, ?_, exists_files_of_extract done⟩
  rw [extract, attachmentsOf_pairTree]
  decide +kernel

/-- Two attachments are told to be written, and the first of them is lost: the path of both leads to
the second. -/
theorem extract_pairTree_lost :
    attachmentsOf pairTree ⟨"w/b.xmcd"⟩ = .ok [⟨"1", [104, 105]⟩, ⟨"1", [121, 111]⟩] ∧
      (extract pairTree ⟨"out"⟩ ⟨"w/b.xmcd"⟩).2 = .ok 2 ∧
      Attachment.path ⟨"out"⟩ (⟨"w/b.xmcd"⟩ : Path).stem ⟨"1", [104, 105]⟩ =
        ⟨"out/bin/b/item1.png"⟩ ∧
      (extract pairTree ⟨"out"⟩ ⟨"w/b.xmcd"⟩).1.read ⟨"out/bin/b/item1.png"⟩ =
        .ok ⟨#[121, 111]⟩ := by
  refine ⟨attachmentsOf_pairTree_twice, ?_, by decide +kernel, ?_⟩
  · rw [extract, attachmentsOf_pairTree_twice]
    exact toOption_eq_some_iff.1 (by decide +kernel)
  · rw [extract, attachmentsOf_pairTree_twice]
    exact toOption_eq_some_iff.1 (by decide +kernel)

end Calcsheet
