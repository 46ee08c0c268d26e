import Calcsheet.Proofs.Batch.Discovery

/-!
# The folders of the outputs repeat those of the worksheets

What is between the root and the folder of a worksheet stands again between the output folder and
the folder for its outputs (`components_outputFolderOf`), however the root and the output folder are
written. So the outputs of two worksheets go into one folder exactly if the worksheets are in one
folder (`mirrors_of_mem_discover`).
-/

namespace Calcsheet

open Calcsheet.Path

namespace Path

variable {p q : Path}

theorem eq_here_of_mem_start? (relative : q.isAbsolute = false) {c : Component}
    (h : c ∈ q.split.start?.toList) : c = .here := by
  rcases text_cases q with ⟨s, hq⟩ | hq | ⟨s, hq⟩ | hq
  · simp [isAbsolute, hq] at relative
  · simpa [split_of_dot hq] using h
  · simpa [split_of_dot_slash hq] using h
  · simp [split_of_isInner hq] at h

theorem ofPiece_ne_here (piece : String) : Component.ofPiece piece ≠ .here := by
  unfold Component.ofPiece
  split <;> simp

/-- A path that is joined adds its components, except for a dot that it begins with. -/
theorem components_join_relative (notEmpty : p.text ≠ "") (relative : q.isAbsolute = false) :
    (p.join q).components = p.components ++ q.components.filter (· ≠ .here) := by
  have start : q.split.start?.toList.filter (· ≠ .here) = [] := by
    simpa using fun c hc => eq_here_of_mem_start? relative hc
  have pieces : ((solid q.split.pieces).map Component.ofPiece).filter (· ≠ .here) =
      (solid q.split.pieces).map Component.ofPiece := by
    refine List.filter_eq_self.2 fun c hc => ?_
    obtain ⟨piece, -, rfl⟩ := List.mem_map.1 hc
    exact decide_eq_true (ofPiece_ne_here piece)
  rw [components_join notEmpty relative, components_eq q, List.filter_append, start, pieces,
    solid_pieces_of_relative relative, List.nil_append]

theorem components_join_names {names : List String} (notEmpty : p.text ≠ "")
    (h : q.components = names.map .named) : (p.join q).components = p.components ++ q.components := by
  obtain ⟨relative, -⟩ := solid_of_components_eq h
  have all : q.components.filter (· ≠ .here) = q.components := by
    refine List.filter_eq_self.2 fun c hc => ?_
    rw [h] at hc
    obtain ⟨name, -, rfl⟩ := List.mem_map.1 hc
    rfl
  rw [components_join_relative notEmpty relative, all]

end Path

namespace Batch

variable {root file : Path} {dirs : List String} {name : String}

/-- The folder of a worksheet below the root is seen from the root, and what is seen is joined to
the output folder. -/
theorem exists_outputFolderOf_eq
    (h : file.components = root.components ++ dirs.map .named ++ [.named name])
    (outputFolder : String) :
    ∃ parent below, file.parent? = some parent ∧
      parent.components = root.components ++ dirs.map .named ∧
      parent.below? root = some below ∧ below.components = dirs.map .named ∧
      outputFolderOf root file outputFolder = (root.join ⟨outputFolder⟩).join below := by
  obtain ⟨parent, hparent, hcomponents⟩ := exists_parent? h
  obtain ⟨below, hbelow, hnames⟩ := exists_below? hcomponents
  refine ⟨parent, below, hparent, hcomponents, hbelow, hnames, ?_⟩
  rw [outputFolderOf, hparent, Option.bind_some, hbelow, Option.getD_some]

theorem components_outputFolderOf (notEmpty : root.text ≠ "")
    (h : file.components = root.components ++ dirs.map .named ++ [.named name])
    (outputFolder : String) :
    (outputFolderOf root file outputFolder).components =
      (root.join ⟨outputFolder⟩).components ++ dirs.map .named := by
  obtain ⟨-, below, -, -, -, hnames, folder⟩ := exists_outputFolderOf_eq h outputFolder
  rw [folder, components_join_names (text_join_ne_left notEmpty) hnames, hnames]

theorem exists_components_of_mem_discover {tree : FileTree} {skip : Path} {files : List Path}
    (named : tree.WellNamed) (found : discover tree root skip = .ok files) (h : file ∈ files) :
    ∃ (dirs : List String) (name : String),
      file.components = root.components ++ dirs.map .named ++ [.named name] := by
  obtain ⟨entries, hlist, -⟩ := bind_eq_ok_iff.1 found
  obtain ⟨notEmpty, -⟩ := FileTree.exists_standsAt hlist
  obtain ⟨dirs, name, rfl, isDir, isName, -⟩ := exists_of_mem_discover named found h
  refine ⟨dirs, name, ?_⟩
  rw [components_join_name (text_under_ne notEmpty dirs) isName, components_under notEmpty isDir]

/-- Whatever leads from the root to the folder of a worksheet leads from the output folder to the
folder for its outputs. The folder of the worksheet is always seen from the root, so nothing falls
back on the output folder itself, and the outputs of two worksheets go into one folder exactly if
the worksheets are in one folder. -/
theorem mirrors_of_mem_discover {tree : FileTree} {skip f g : Path} {files : List Path}
    {outputFolder : String} (named : tree.WellNamed)
    (relative : (⟨outputFolder⟩ : Path).isAbsolute = false)
    (found : discover tree root skip = .ok files) (hf : f ∈ files) (hg : g ∈ files) :
    ∃ parent parent' rest,
      f.parent? = some parent ∧ g.parent? = some parent' ∧
      parent.components = root.components ++ rest ∧
      (parent.below? root).map components = some rest ∧
      (root.join ⟨outputFolder⟩).components =
        root.components ++ (⟨outputFolder⟩ : Path).components.filter (· ≠ .here) ∧
      (outputFolderOf root f outputFolder).components =
        (root.join ⟨outputFolder⟩).components ++ rest ∧
      ((outputFolderOf root f outputFolder).sameAs (outputFolderOf root g outputFolder) = true ↔
        parent.sameAs parent' = true) := by
  obtain ⟨entries, hlist, -⟩ := bind_eq_ok_iff.1 found
  obtain ⟨notEmpty, -⟩ := FileTree.exists_standsAt hlist
  obtain ⟨dirs, name, hf⟩ := exists_components_of_mem_discover named found hf
  obtain ⟨dirs', name', hg⟩ := exists_components_of_mem_discover named found hg
  obtain ⟨parent, below, hparent, hdirs, hbelow, hrest, -⟩ :=
    exists_outputFolderOf_eq hf outputFolder
  obtain ⟨parent', -, hparent', hdirs', -, -, -⟩ := exists_outputFolderOf_eq hg outputFolder
  have folder := components_outputFolderOf notEmpty hf outputFolder
  have folder' := components_outputFolderOf notEmpty hg outputFolder
  refine ⟨parent, parent', dirs.map .named, hparent, hparent', hdirs, ?_,
    components_join_relative notEmpty relative, folder, ?_⟩
  · rw [hbelow, Option.map_some, hrest]
  · simp only [sameAs, decide_eq_true_iff, folder, folder', hdirs, hdirs',
      List.append_cancel_left_eq]

/-- Two worksheets in a folder, and one beside the folder. -/
def siblingTree : FileTree :=
  .folder [("w", .folder [("z.xmcd", .file "1".toUTF8),
    ("b", .folder [("y.xmcd", .file "2".toUTF8), ("x.xmcd", .file "3".toUTF8)])])]

theorem wellNamed_siblingTree : siblingTree.WellNamed := by
  refine .folder (by decide) ?_
  simp only [List.forall_mem_cons]
  refine ⟨.folder (by decide) ?_, by simp⟩
  simp only [List.forall_mem_cons]
  refine ⟨.file _, .folder (by decide) ?_, by simp⟩
  simp only [List.forall_mem_cons]
  exact ⟨.file _, .file _, by simp⟩

/-- The root and the output folder are written with dots and slashes too many. -/
theorem mirrors_siblingTree :
    siblingTree.WellNamed ∧
    discover siblingTree ⟨"./w/."⟩ ⟨"w/b"⟩ =
      .ok [⟨"./w/./b/x.xmcd"⟩, ⟨"./w/./b/y.xmcd"⟩, ⟨"./w/./z.xmcd"⟩] ∧
    outputFolderOf ⟨"./w/."⟩ ⟨"./w/./b/x.xmcd"⟩ "./Net//n" = ⟨"./w/././Net//n/b"⟩ ∧
    ∃ parent parent' rest,
      (⟨"./w/./b/x.xmcd"⟩ : Path).parent? = some parent ∧
      (⟨"./w/./z.xmcd"⟩ : Path).parent? = some parent' ∧
      parent.components = (⟨"./w/."⟩ : Path).components ++ rest ∧
      (parent.below? ⟨"./w/."⟩).map components = some rest ∧
      ((⟨"./w/."⟩ : Path).join ⟨"./Net//n"⟩).components =
        (⟨"./w/."⟩ : Path).components ++ (⟨"./Net//n"⟩ : Path).components.filter (· ≠ .here) ∧
      (outputFolderOf ⟨"./w/."⟩ ⟨"./w/./b/x.xmcd"⟩ "./Net//n").components =
        ((⟨"./w/."⟩ : Path).join ⟨"./Net//n"⟩).components ++ rest ∧
      ((outputFolderOf ⟨"./w/."⟩ ⟨"./w/./b/x.xmcd"⟩ "./Net//n").sameAs
          (outputFolderOf ⟨"./w/."⟩ ⟨"./w/./z.xmcd"⟩ "./Net//n") = true ↔
        parent.sameAs parent' = true) := by
  have found : discover siblingTree ⟨"./w/."⟩ ⟨"w/b"⟩ =
      .ok [⟨"./w/./b/x.xmcd"⟩, ⟨"./w/./b/y.xmcd"⟩, ⟨"./w/./z.xmcd"⟩] :=
    toOption_eq_some_iff.1 (by decide +kernel)
  exact ⟨wellNamed_siblingTree, found, by decide +kernel,
    mirrors_of_mem_discover wellNamed_siblingTree (by decide +kernel) found (by simp) (by simp)⟩

end Batch

end Calcsheet
