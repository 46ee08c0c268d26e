import Calcsheet.Proofs.Attachments
import Calcsheet.Proofs.Batch.Mirror
import Calcsheet.Proofs.Batch.Plan

/-!
# Places of worksheets and of their source files

The source file of a worksheet stands in the output folder, in the same folders and under the same
stem. So two worksheets have their source files at one place exactly if they are in one folder and
have one stem (`Placed.isTwin_iff`), which they can if their extensions differ in case. No source
file stands where a worksheet stands (`Placed.sourcePlace_ne`).
-/

namespace Calcsheet.Batch

open FileTree Calcsheet.Path

/-- The names on the way from the root to the output folder. -/
def outputNames (options : Options) : List String :=
  solid (piecesOf options.outputFolder.toList)

/-- The outputs go into a folder below the root, and source files into the folders meant for them. -/
structure Options.Contained (options : Options) : Prop where
  relative : (⟨options.outputFolder⟩ : Path).isAbsolute = false
  noUp : .up ∉ (⟨options.outputFolder⟩ : Path).components
  named : ∃ name, .named name ∈ (⟨options.outputFolder⟩ : Path).components
  noSlash : '/' ∉ options.extension.toList

/-- The end of the name of every attachment. -/
def itemEnd : List Char :=
  ".png".toList

/-- No source file has a name that an attachment can have. -/
def Options.TellsApart (options : Options) : Prop :=
  options.attachments = false ∨ ¬ itemEnd <:+ '.' :: options.extension.toList

/-- The worksheets are in one folder and have one stem. -/
def isTwin (w x : Path) : Bool :=
  w.parent?.map Path.components = x.parent?.map Path.components && w.stem = x.stem

/-- The worksheet `w` is at `name` in the folder at `dirs` below the root, which is not in the output
folder. -/
structure Placed (options : Options) (root : Path) (dirs : List String) (name : String) (w : Path) :
    Prop where
  path_eq : w = (root.under dirs).join ⟨name⟩
  isDir : ∀ dir ∈ dirs, IsName dir
  isName : IsName name
  isWorksheet : isWorksheet w = true
  outside : ¬ outputNames options <+: dirs

/-- The place of the source file, given that of the root. -/
def sourcePlace (options : Options) (place : Place) (dirs : List String) (w : Path) : Place :=
  place ++ (outputNames options ++ dirs) ++ [sourceName options w]

section Places

variable {options : Options} {root w x : Path} {dirs dirs' : List String} {name name' : String}
  {tree : FileTree} {place : Place}

theorem Options.Contained.up_not_mem (h : options.Contained) : ".." ∉ outputNames options :=
  fun up => h.noUp ((up_mem_components_iff h.relative).2 up)

theorem Options.Contained.outputNames_ne_nil (h : options.Contained) : outputNames options ≠ [] := by
  obtain ⟨name, hname⟩ := h.named
  have notNil := solid_ne_nil_of_named_mem h.relative hname
  exact notNil

theorem Options.Contained.isName_of_mem (h : options.Contained) :
    ∀ name ∈ outputNames options, IsName name := by
  intro name hname
  obtain ⟨piece, notVoid⟩ := List.mem_filter.1 hname
  obtain ⟨notEmpty, notHere⟩ : name ≠ "" ∧ name ≠ "." := by simpa [isVoid] using notVoid
  exact ⟨notEmpty, notHere, fun up => h.up_not_mem (up ▸ hname),
    slash_not_mem_of_mem_piecesOf piece⟩

/-- The folder that is left out is the one at the names of the output folder. -/
theorem Options.Contained.components_eq (h : options.Contained) (notEmpty : root.text ≠ "") :
    (root.join ⟨options.outputFolder⟩).components =
      root.components ++ (outputNames options).map .named := by
  rw [components_join notEmpty h.relative]
  congr 1
  refine List.map_congr_left fun n hn => ?_
  rw [Component.ofPiece, if_neg (h.isName_of_mem n hn).notUp]

theorem Options.Contained.sameAs (h : options.Contained) (notEmpty : root.text ≠ "") :
    (root.under (outputNames options)).sameAs (root.join ⟨options.outputFolder⟩) = true := by
  rw [Path.sameAs, decide_eq_true_iff, h.components_eq notEmpty,
    components_under notEmpty h.isName_of_mem]

/-- The root itself is not left out. -/
theorem Options.Contained.not_sameAs (h : options.Contained) (notEmpty : root.text ≠ "") :
    root.sameAs (root.join ⟨options.outputFolder⟩) = false := by
  rw [Path.sameAs, decide_eq_false_iff_not, h.components_eq notEmpty]
  simpa using h.outputNames_ne_nil

theorem exists_placed {files : List Path} (contained : options.Contained) (named : tree.WellNamed)
    (h : discover tree root (root.join ⟨options.outputFolder⟩) = .ok files) (hw : w ∈ files) :
    ∃ dirs name, Placed options root dirs name w := by
  obtain ⟨dirs, name, hpath, isDir, isName, worksheet, apart⟩ := exists_of_mem_discover named h hw
  obtain ⟨entries, hlist, -⟩ := bind_eq_ok_iff.1 h
  obtain ⟨notEmpty, -⟩ := exists_standsAt hlist
  refine ⟨dirs, name, hpath, isDir, isName, worksheet, fun hle => ?_⟩
  have same := contained.sameAs notEmpty
  rw [apart _ contained.outputNames_ne_nil hle] at same
  cases same

theorem Placed.isName_of_mem (h : Placed options root dirs name w) :
    ∀ n ∈ dirs ++ [name], IsName n := by
  intro n hn
  rcases List.mem_append.1 hn with hn | hn
  · exact h.isDir n hn
  · exact List.mem_singleton.1 hn ▸ h.isName

theorem Placed.path_under (h : Placed options root dirs name w) : w = root.under (dirs ++ [name]) := by
  rw [h.path_eq, under_append]
  rfl

theorem Placed.components_eq (h : Placed options root dirs name w) (notEmpty : root.text ≠ "") :
    w.components = root.components ++ dirs.map .named ++ [.named name] := by
  rw [h.path_under, components_under notEmpty h.isName_of_mem]
  simp

theorem Placed.exists_parent (h : Placed options root dirs name w) (notEmpty : root.text ≠ "") :
    ∃ parent, w.parent? = some parent ∧
      parent.components = root.components ++ dirs.map .named :=
  exists_parent? (h.components_eq notEmpty)

theorem Placed.stem_eq (h : Placed options root dirs name w) (notEmpty : root.text ≠ "") :
    w.stem = (cutName name).1 :=
  stem_of_components (h.components_eq notEmpty)

/-- The name of a worksheet is its stem, which is not empty, a dot and the letters `xmcd`. -/
theorem exists_name_eq_of_isWorksheet {cs : List Component} (hcs : w.components = cs ++ [.named name])
    (worksheet : isWorksheet w = true) :
    ∃ extension, name = w.stem ++ "." ++ extension ∧ w.stem ≠ "" ∧
      extension.map Char.toLower = "xmcd" := by
  unfold Batch.isWorksheet extension? at worksheet
  rw [fileName?_of_components hcs, Option.bind_some] at worksheet
  cases hcut : (cutName name).2 with
  | none => simp [hcut] at worksheet
  | some extension =>
    rw [hcut] at worksheet
    obtain ⟨hname, hstem⟩ := cutName_of_extension hcut
    rw [stem_of_components hcs]
    exact ⟨extension, hname, hstem, by simpa using worksheet⟩

theorem not_itemEnd_of_isWorksheet {cs : List Component} (hcs : w.components = cs ++ [.named name])
    (worksheet : isWorksheet w = true) : ¬ itemEnd <:+ name.toList := by
  obtain ⟨extension, hname, -, lower⟩ := exists_name_eq_of_isWorksheet hcs worksheet
  rintro ⟨s, hs⟩
  have lastName : name.toList.getLast? = some 'g' := by
    rw [← hs, itemEnd, List.getLast?_append]
    rfl
  have lastExtension : (extension.toList.map Char.toLower).getLast? = some 'd' := by
    rw [← String.toList_map, lower]
    rfl
  rw [List.getLast?_map, Option.map_eq_some_iff] at lastExtension
  obtain ⟨c, hc, hd⟩ := lastExtension
  have : name.toList.getLast? = some c := by
    rw [hname, String.toList_append, List.getLast?_append, hc]
    rfl
  obtain rfl : c = 'g' := Option.some.inj (this.symm.trans lastName)
  exact absurd hd (by decide)

theorem Placed.exists_name_eq (h : Placed options root dirs name w) (notEmpty : root.text ≠ "") :
    ∃ extension, name = w.stem ++ "." ++ extension ∧ w.stem ≠ "" ∧
      extension.map Char.toLower = "xmcd" :=
  exists_name_eq_of_isWorksheet (h.components_eq notEmpty) h.isWorksheet

theorem Placed.not_itemEnd (h : Placed options root dirs name w) (notEmpty : root.text ≠ "") :
    ¬ itemEnd <:+ name.toList :=
  not_itemEnd_of_isWorksheet (h.components_eq notEmpty) h.isWorksheet

theorem sourceName_ne_empty (options : Options) (w : Path) : sourceName options w ≠ "" := by
  intro empty
  have := congrArg String.toList empty
  simp [sourceName] at this

theorem Placed.sourceName_noSlash (h : Placed options root dirs name w) (notEmpty : root.text ≠ "")
    (contained : options.Contained) : '/' ∉ (sourceName options w).toList := by
  obtain ⟨extension, hname, -, -⟩ := h.exists_name_eq notEmpty
  have noSlash := h.isName.noSlash
  rw [hname] at noSlash
  simp only [String.toList_append, List.mem_append, not_or] at noSlash
  simp only [sourceName, String.toList_append, List.mem_append, not_or]
  exact ⟨noSlash.1, contained.noSlash⟩

theorem Placed.isName_sourceName {folder : Place} {n : String} {p : Path}
    (h : Placed options root dirs name w) (notEmpty : root.text ≠ "") (contained : options.Contained)
    (aims : Aims tree (p.join ⟨sourceName options w⟩) folder n) : IsName (sourceName options w) := by
  have noSlash := h.sourceName_noSlash notEmpty contained
  obtain ⟨init, hsteps, -⟩ := aims.route
  rw [steps_join_name p (sourceName_ne_empty options w) noSlash] at hsteps
  obtain rfl : sourceName options w = n := (List.cons.inj (List.append_inj' hsteps rfl).2).1
  exact aims.isName

theorem not_itemEnd_sourceName (h : ¬ itemEnd <:+ '.' :: options.extension.toList) (w : Path) :
    ¬ itemEnd <:+ (sourceName options w).toList := by
  have tail : '.' :: options.extension.toList <:+ (sourceName options w).toList :=
    ⟨w.stem.toList, by simp [sourceName]⟩
  intro item
  by_cases short : itemEnd.length ≤ ('.' :: options.extension.toList).length
  · exact h (List.suffix_of_suffix_length_le item tail short)
  · -- a shorter end of the name of an attachment has no dot in front
    have inner := List.suffix_of_suffix_length_le tail item (by omega)
    obtain ⟨s, hs⟩ := inner
    cases s with
    | nil => exact h ⟨[], by simpa using hs.symm⟩
    | cons c s =>
      have dot : '.' ∈ itemEnd.tail := by
        rw [← hs]
        simp
      exact absurd dot (by decide)

theorem Options.TellsApart.sourceName (h : options.TellsApart) (w : Path) :
    options.attachments = false ∨ ¬ itemEnd <:+ (sourceName options w).toList :=
  h.imp_right fun notItem => not_itemEnd_sourceName notItem w

theorem Options.Contained.descends (contained : options.Contained) (notEmpty : root.text ≠ "") :
    Descends root (outputNames options) (root.join ⟨options.outputFolder⟩) := by
  have descends := (Descends.refl notEmpty).join (q := ⟨options.outputFolder⟩) contained.relative
    contained.up_not_mem
  exact descends

/-- The folder for the outputs of a worksheet is at the same names below the output folder. -/
theorem Placed.descends (h : Placed options root dirs name w) (notEmpty : root.text ≠ "")
    (contained : options.Contained) :
    Descends root (outputNames options ++ dirs) (outputFolderOf root w options.outputFolder) := by
  obtain ⟨-, below, -, -, -, hnames, folder⟩ :=
    exists_outputFolderOf_eq (h.components_eq notEmpty) options.outputFolder
  obtain ⟨relative, hsolid⟩ := solid_of_components_eq hnames
  have noUp : ".." ∉ solid (piecesOf below.text.toList) := by
    rw [hsolid]
    exact fun up => (h.isDir _ up).notUp rfl
  have descends := (contained.descends notEmpty).join relative noUp
  rw [hsolid] at descends
  rw [folder]
  exact descends

theorem Placed.isTwin_iff (hw : Placed options root dirs name w)
    (hx : Placed options root dirs' name' x) (notEmpty : root.text ≠ "") (place : Place) :
    isTwin w x = true ↔ sourcePlace options place dirs' x = sourcePlace options place dirs w := by
  obtain ⟨parent, hparent, hcomponents⟩ := hw.exists_parent notEmpty
  obtain ⟨parent', hparent', hcomponents'⟩ := hx.exists_parent notEmpty
  have stems : sourceName options x = sourceName options w ↔ w.stem = x.stem := by
    simp [sourceName, ← String.toList_inj, eq_comm]
  have folders : parent.components = parent'.components ↔ dirs' = dirs := by
    rw [hcomponents, hcomponents', List.append_cancel_left_eq]
    exact ⟨fun h => (map_named_inj h).symm, fun h => by rw [h]⟩
  unfold isTwin sourcePlace
  rw [hparent, hparent', Option.map_some, Option.map_some, Bool.and_eq_true, decide_eq_true_iff,
    decide_eq_true_iff, Option.some_inj, folders, ← stems]
  constructor
  · rintro ⟨rfl, hname⟩
    rw [hname]
  · intro same
    obtain ⟨hplace, hname⟩ := List.append_inj' same rfl
    exact ⟨List.append_cancel_left (List.append_cancel_left hplace), (List.cons.inj hname).1⟩

/-- No source file stands where a worksheet stands. -/
theorem Placed.sourcePlace_ne (hw : Placed options root dirs name w) (place : Place) (x : Path) :
    sourcePlace options place dirs' x ≠ place ++ dirs ++ [name] := by
  intro same
  obtain ⟨hplace, -⟩ := List.append_inj' same rfl
  exact hw.outside ⟨dirs', List.append_cancel_left hplace⟩

end Places

end Calcsheet.Batch
