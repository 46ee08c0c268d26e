import Calcsheet.Proofs.FileTree.Route
import Calcsheet.WorksheetFile

/-!
# Where attachments go

The path of an attachment goes from the folder `bin` of the destination on by the stem of the
worksheet and the name of the attachment. Both can have two dots in them: a worksheet `...xmcd` has
the stem `..`, and the name of an attachment holds what the worksheet calls it, slashes included. So
where an attachment goes is found by resolving its path (`Attachment.place`), and every file that
extracting changes is at such a place (`exists_attachment_of_fileAt_ne`). It is below `bin` if the
stem is not two dots and there is no step upwards in the name of the attachment
(`Attachment.exists_place_eq`), but it need not be otherwise.
-/

namespace Calcsheet

open FileTree Calcsheet.Path

namespace Attachment

/-- The place of the folder for the attachments of all worksheets. -/
def binPlace (destination : Path) : Place :=
  resolve [] (steps (destination.join ⟨"bin"⟩))

/-- The place of an attachment of the worksheet with a stem. -/
def place (destination : Path) (stem : String) (a : Attachment) : Place :=
  resolve (binPlace destination) (steps ⟨stem⟩ ++ steps ⟨a.fileName⟩)

section Place

variable {destination : Path} {stem : String} {a : Attachment}

theorem isAbsolute_fileName (a : Attachment) : (⟨a.fileName⟩ : Path).isAbsolute = false := by
  simp [isAbsolute, fileName]

/-- The last step to an attachment ends as the names of attachments do. -/
theorem exists_last_step (a : Attachment) :
    ∃ init last, steps ⟨a.fileName⟩ = init ++ [last] ∧ ".png".toList <:+ last.toList :=
  FileTree.exists_last_step (s := ("item" ++ a.itemId).toList) (by simp [fileName]) (by decide)
    (by decide)

theorem resolve_steps (noSlash : '/' ∉ stem.toList) :
    resolve [] (steps ((folder destination stem).join ⟨a.fileName⟩)) =
      a.place destination stem := by
  rw [steps_join a.isAbsolute_fileName, folder, steps_join (isAbsolute_of_not_mem noSlash),
    List.append_assoc, resolve_append, place, binPlace]

theorem up_not_mem_steps_name {name : String} (noSlash : '/' ∉ name.toList) (ne : name ≠ "..") :
    ".." ∉ steps ⟨name⟩ := by
  rw [steps_eq, piecesOf_of_not_mem noSlash]
  simp [List.mem_filter, Ne.symm ne]

/-- An attachment is below the folder for attachments if nothing on its path goes up. -/
theorem exists_place_eq (noSlash : '/' ∉ stem.toList) (stemNotUp : stem ≠ "..")
    (noUp : ".." ∉ steps ⟨a.fileName⟩) :
    ∃ rest, rest ≠ [] ∧ a.place destination stem = binPlace destination ++ rest := by
  have down : ".." ∉ steps ⟨stem⟩ ++ steps ⟨a.fileName⟩ := by
    simp [up_not_mem_steps_name noSlash stemNotUp, noUp]
  refine ⟨_, ?_, resolve_of_noUp down _⟩
  obtain ⟨init, last, hsteps, hend⟩ := a.exists_last_step
  have notHere : last ≠ "." := by
    rintro rfl
    exact absurd hend (by decide)
  rw [hsteps]
  simp [notHere]

end Place

/-- If there are attachments, their folder is made and each of them is written into it. -/
theorem actions_cases {destination : Path} {stem : String} {attachments : List Attachment}
    {action : Action} (h : action ∈ actions destination stem attachments) :
    attachments ≠ [] ∧ (action = .makeFolders (folder destination stem) ∨
      ∃ a ∈ attachments,
        action = .write ((folder destination stem).join ⟨a.fileName⟩) ⟨a.data.toArray⟩) := by
  unfold actions at h
  split at h
  · cases h
  · next some =>
    refine ⟨by simpa using some, (List.mem_cons.1 h).imp_right fun h => ?_⟩
    obtain ⟨a, ha, rfl⟩ := List.mem_map.1 h
    exact ⟨a, ha, rfl⟩

end Attachment

section Extract

variable {tree : FileTree} {destination document : Path}

theorem extract_of_error {error : ExtractError} (h : attachmentsOf tree document = .error error) :
    (extract tree destination document).1 = tree := by
  rw [extract, h]

theorem extract_of_ok {attachments : List Attachment}
    (h : attachmentsOf tree document = .ok attachments) :
    (extract tree destination document).1 =
      (tree.actAll (Attachment.actions destination document.stem attachments)).1 := by
  rw [extract, h]
  dsimp only
  rcases tree.actAll _ with ⟨written, _ | error⟩ <;> rfl

/-- Every file that extracting the attachments of a worksheet makes or changes holds one of them and
is at its place. That place is below the folder for attachments, unless the stem of the worksheet is
two dots or the name of the attachment goes up. -/
theorem exists_attachment_of_fileAt_ne {q : Place}
    (changed : (extract tree destination document).1.fileAt q ≠ tree.fileAt q) :
    ∃ attachments a, attachmentsOf tree document = .ok attachments ∧ a ∈ attachments ∧
      (extract tree destination document).1.fileAt q = some ⟨a.data.toArray⟩ ∧
      q = resolve (Attachment.binPlace destination)
        (steps ⟨document.stem⟩ ++ steps ⟨"item" ++ a.itemId ++ ".png"⟩) ∧
      (document.stem ≠ ".." → ".." ∉ steps ⟨"item" ++ a.itemId ++ ".png"⟩ →
        ∃ rest, rest ≠ [] ∧ q = Attachment.binPlace destination ++ rest) := by
  cases hread : attachmentsOf tree document with
  | error error => exact absurd (by rw [extract_of_error hread]) changed
  | ok attachments =>
    rw [extract_of_ok hread, fileAt_actAll] at changed ⊢
    cases hlast : (writtenAt q tree
        (Attachment.actions destination document.stem attachments)).getLast? with
    | none => exact absurd (by rw [hlast, Option.none_or]) changed
    | some content =>
      obtain ⟨p, hp, hq⟩ := exists_write_of_mem_writtenAt (List.mem_of_getLast? hlast)
      obtain ⟨-, made | ⟨a, ha, written⟩⟩ := Attachment.actions_cases hp
      · cases made
      obtain ⟨rfl, rfl⟩ := Action.write.inj written
      have noSlash := slash_not_mem_stem document
      rw [Attachment.resolve_steps noSlash] at hq
      refine ⟨attachments, a, rfl, ha, rfl, hq, fun stemNotUp noUp => ?_⟩
      rw [hq]
      exact Attachment.exists_place_eq noSlash stemNotUp noUp

end Extract

/-! ## Attachments outside -/

/-- A worksheet with an attachment. -/
def imageSheet (itemId : String) : String :=
  "<w xmlns=\"http://schemas.mathsoft.com/worksheet30\"><binaryContent><i item-id=\"" ++ itemId ++
    "\">aGk=</i></binaryContent></w>"

/-- Three worksheets: one like any other, one whose stem is two dots, and one whose attachment goes
up from a folder that is there. -/
def imageTree : FileTree :=
  .folder
    [("out", .folder [("bin", .folder [("b", .folder [("itemx", .folder [])])])]),
     ("w", .folder
      [("a.xmcd", .file (imageSheet "3").toUTF8), ("...xmcd", .file (imageSheet "3").toUTF8),
       ("b.xmcd", .file (imageSheet "x/../../../y").toUTF8)])]

theorem exists_attachment_imageTree :
    (extract imageTree ⟨"out"⟩ ⟨"w/a.xmcd"⟩).1.fileAt ["out", "bin", "a", "item3.png"] ≠
        imageTree.fileAt ["out", "bin", "a", "item3.png"] ∧
      ∃ attachments a, attachmentsOf imageTree ⟨"w/a.xmcd"⟩ = .ok attachments ∧ a ∈ attachments ∧
        (extract imageTree ⟨"out"⟩ ⟨"w/a.xmcd"⟩).1.fileAt ["out", "bin", "a", "item3.png"] =
          some ⟨a.data.toArray⟩ ∧
        ["out", "bin", "a", "item3.png"] = resolve (Attachment.binPlace ⟨"out"⟩)
          (steps ⟨(⟨"w/a.xmcd"⟩ : Path).stem⟩ ++ steps ⟨"item" ++ a.itemId ++ ".png"⟩) ∧
        ((⟨"w/a.xmcd"⟩ : Path).stem ≠ ".." → ".." ∉ steps ⟨"item" ++ a.itemId ++ ".png"⟩ →
          ∃ rest, rest ≠ [] ∧
            ["out", "bin", "a", "item3.png"] = Attachment.binPlace ⟨"out"⟩ ++ rest) := by
  have changed : (extract imageTree ⟨"out"⟩ ⟨"w/a.xmcd"⟩).1.fileAt
        ["out", "bin", "a", "item3.png"] ≠
      imageTree.fileAt ["out", "bin", "a", "item3.png"] := by
    decide +kernel
  exact ⟨changed, exists_attachment_of_fileAt_ne changed⟩

/-- Neither of these attachments is below the folder for attachments. -/
theorem extract_imageTree_outside :
    Attachment.binPlace ⟨"out"⟩ = ["out", "bin"] ∧
      (extract imageTree ⟨"out"⟩ ⟨"w/...xmcd"⟩).1.fileAt ["out", "item3.png"] ≠
        imageTree.fileAt ["out", "item3.png"] ∧
      ¬ ["out", "bin"] <+: ["out", "item3.png"] ∧
      (extract imageTree ⟨"out"⟩ ⟨"w/b.xmcd"⟩).1.fileAt ["out", "y.png"] ≠
        imageTree.fileAt ["out", "y.png"] ∧
      ¬ ["out", "bin"] <+: ["out", "y.png"] :=
  ⟨by decide, by decide +kernel, by decide, by decide +kernel, by decide⟩

end Calcsheet
