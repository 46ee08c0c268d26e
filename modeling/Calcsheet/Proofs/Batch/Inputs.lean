import Calcsheet.Proofs.Batch.Outputs

/-!
# A batch leaves its inputs alone

What a batch does to the tree is not noticed by a search for worksheets. A folder that is made is
empty, an attachment is no worksheet wherever it goes, and a source file goes into the output folder,
which is not searched (`Ground.unnoticed_convertOne`). So after a batch the same worksheets are
found, in the same order and with the same contents (`discover_convert`), and another batch begins
where this one began.
-/

namespace Calcsheet

open FileTree Calcsheet.Path

/-- No folder has two entries of one name. -/
inductive FileTree.Distinct : FileTree → Prop
  | file (content : ByteArray) : Distinct (.file content)
  | folder {entries : List (String × FileTree)} (names : (entries.map Prod.fst).Nodup)
    (inner : ∀ e ∈ entries, Distinct e.2) : Distinct (.folder entries)

theorem FileTree.Distinct.get? {tree entry : FileTree} {place : Place} (distinct : tree.Distinct)
    (h : tree.get? place = some entry) : entry.Distinct := by
  induction place generalizing tree with
  | nil =>
    obtain rfl : tree = entry := by simpa [get?_nil] using h
    exact distinct
  | cons name rest ih =>
    cases distinct with
    | file content => simp [get?_file_cons] at h
    | folder names inner =>
      rw [get?_folder_cons, Option.bind_eq_some_iff] at h
      obtain ⟨t, hlookup, h⟩ := h
      exact ih (inner (name, t) (mem_of_lookup hlookup)) h

namespace Batch

/-! ## What a search sees -/

section Search

variable {skip path : Path} {entries : List (String × FileTree)} {tree new : FileTree}

/-- Entries in which nothing was found do not count. -/
theorem inOrder_filter (found : List (String × List Path)) :
    inOrder (found.filter fun f => !f.2.isEmpty) = inOrder found := by
  rw [inOrder, inOrder, ← Text.filter_sortOn]
  induction Text.sortOn Prod.fst found with
  | nil => rfl
  | cons f rest ih =>
    rw [List.filter_cons, List.flatMap_cons]
    split
    · rw [List.flatMap_cons, ih]
    · next empty =>
      have empty : f.2 = [] := by simpa using empty
      rw [ih, empty, List.nil_append]

/-- An entry is not missed or noticed if as much is found in it as before. -/
theorem inOrder_foundIn_setEntry {name : String}
    (same : found skip (path.join ⟨name⟩) new =
      ((entries.lookup name).map (found skip (path.join ⟨name⟩))).getD []) :
    inOrder (foundIn skip path (setEntry name new entries)) =
      inOrder (foundIn skip path entries) := by
  suffices ((foundIn skip path (setEntry name new entries)).filter fun f => !f.2.isEmpty) =
      (foundIn skip path entries).filter fun f => !f.2.isEmpty by
    rw [← inOrder_filter, this, inOrder_filter]
  rw [foundIn_eq, foundIn_eq]
  induction entries with
  | nil => simpa [setEntry] using same
  | cons e rest ih =>
    rw [lookup_cons_eq] at same
    rw [setEntry]
    by_cases he : e.1 = name
    · rw [if_pos he.symm] at same
      rw [if_pos he, List.map_cons, List.map_cons, he]
      rw [same]
      rfl
    · rw [if_neg (Ne.symm he)] at same
      rw [if_neg he, List.map_cons, List.map_cons, List.filter_cons, List.filter_cons, ih same]

/-- What is put at a place below `path` goes into the folder that is left out, or else there is no
worksheet in it nor in what stands there. -/
def Unseen (skip path : Path) (place : Place) (new tree : FileTree) : Prop :=
  (∃ above below, place = above ++ below ∧ below ≠ [] ∧ (path.under above).sameAs skip = true) ∨
    found skip (path.under place) new = [] ∧
      ∀ old, tree.get? place = some old → found skip (path.under place) old = []

/-- What is unseen from a folder is unseen from the entry that it goes into. -/
theorem Unseen.inner {name : String} {rest : Place} {e : FileTree}
    (unseen : Unseen skip path (name :: rest) new (.folder entries))
    (searched : ¬ path.sameAs skip = true) (he : entries.lookup name = some e) :
    Unseen skip (path.join ⟨name⟩) rest new e := by
  rcases unseen with ⟨above, below, split, notNil, left⟩ | ⟨none, old⟩
  · cases above with
    | nil => exact absurd left searched
    | cons first above =>
      obtain ⟨rfl, tail⟩ := List.cons.inj split
      exact .inl ⟨above, below, tail, notNil, left⟩
  · refine .inr ⟨none, fun t ht => old t ?_⟩
    rw [get?_folder_cons, he, Option.bind_some, ht]

theorem Unseen.found_eq_nil {name : String} (unseen : Unseen skip path [name] new tree)
    (searched : ¬ path.sameAs skip = true) : found skip (path.join ⟨name⟩) new = [] := by
  rcases unseen with ⟨above, below, split, notNil, left⟩ | ⟨none, -⟩
  · cases above with
    | nil => exact absurd left searched
    | cons first above =>
      obtain ⟨-, tail⟩ := List.cons.inj split
      exact absurd (List.append_eq_nil_iff.1 tail.symm).2 notNil
  · exact none

/-- A search finds the same when something unseen is put into the tree. -/
theorem found_put {place : Place} (unseen : Unseen skip path place new tree) :
    found skip path (put new place tree) = found skip path tree := by
  induction place generalizing path tree with
  | nil =>
    rcases unseen with ⟨above, below, split, notNil, -⟩ | ⟨none, old⟩
    · exact absurd (List.append_eq_nil_iff.1 split.symm).2 notNil
    · rw [put]
      exact none.trans (old tree (get?_nil tree)).symm
  | cons name rest ih =>
    cases tree with
    | file content => rw [put]
    | folder entries =>
      by_cases into : rest = [] ∨ (entries.lookup name).isSome = true
      · rw [put_folder_cons _ _ _ _ into, found, found]
        by_cases left : path.sameAs skip = true
        · rw [if_pos left, if_pos left]
        · rw [if_neg left, if_neg left]
          refine inOrder_foundIn_setEntry ?_
          cases he : entries.lookup name with
          | some e => exact ih (unseen.inner left he)
          | none =>
            obtain rfl : rest = [] := by simpa [he] using into
            rw [put]
            exact unseen.found_eq_nil left
      · rw [put_of_missing new into]

end Search

/-! ## What is not noticed -/

/-- The folder at `base` stays, and a search that comes to it at the path `root` finds the same. -/
def Unnoticed (skip root : Path) (base : Place) (tree tree' : FileTree) : Prop :=
  ∀ entries, tree.get? base = some (.folder entries) → ∃ entries',
    tree'.get? base = some (.folder entries') ∧
      found skip root (.folder entries') = found skip root (.folder entries)

section Unnoticed

variable {skip root : Path} {base : Place} {tree tree' tree'' new : FileTree}

theorem Unnoticed.refl (skip root : Path) (base : Place) (tree : FileTree) :
    Unnoticed skip root base tree tree :=
  fun entries h => ⟨entries, h, rfl⟩

theorem Unnoticed.trans (first : Unnoticed skip root base tree tree')
    (second : Unnoticed skip root base tree' tree'') : Unnoticed skip root base tree tree'' := by
  intro entries h
  obtain ⟨entries', h', same⟩ := first entries h
  obtain ⟨entries'', h'', same'⟩ := second entries' h'
  exact ⟨entries'', h'', same'.trans same⟩

theorem exists_put_folder (new : FileTree) {place : Place} (notNil : place ≠ [])
    (entries : List (String × FileTree)) :
    ∃ entries', put new place (.folder entries) = .folder entries' := by
  obtain ⟨name, rest, rfl⟩ := List.exists_cons_of_ne_nil notNil
  by_cases into : rest = [] ∨ (entries.lookup name).isSome = true
  · exact ⟨_, put_folder_cons _ _ _ _ into⟩
  · exact ⟨_, put_of_missing new into⟩

theorem unnoticed_put {q : Place} (notFolder : tree.entryAt q ≠ some .folder)
    (unseen : ∀ rest t, q = base ++ rest → rest ≠ [] → tree.get? base = some t →
      Unseen skip root rest new t) :
    Unnoticed skip root base tree (put new q tree) := by
  intro entries h
  by_cases below : base <+: q
  · obtain ⟨rest, rfl⟩ := below
    have notNil : rest ≠ [] := by
      rintro rfl
      exact notFolder (entryAt_eq_some_folder.2 ⟨entries, by rw [List.append_nil, h]⟩)
    obtain ⟨entries', hput⟩ := exists_put_folder new notNil entries
    refine ⟨entries', by rw [get?_put_append h, hput], ?_⟩
    rw [← hput]
    exact found_put (unseen rest _ rfl notNil h)
  · exact ⟨entries, get?_put_of_apart h below notFolder new, rfl⟩

/-- New folders are empty. -/
theorem unnoticed_makeFolders (skip root : Path) (base : Place) (tree : FileTree) (p : Path) :
    Unnoticed skip root base tree (tree.makeFolders p).1 := by
  refine makeFoldersWithin_induction (Unnoticed.refl skip root base)
    (fun _ _ _ first second => first.trans second) fun q _ tree => ?_
  rcases settle_cases tree q with same | made
  · rw [same]
    exact .refl _ _ _ tree
  · obtain ⟨place, name, -, free, hput⟩ := eq_put_of_makeFolder made
    rw [hput]
    refine unnoticed_put (by simp [free]) fun rest t split _ ht => .inr ⟨?_, fun old hold => ?_⟩
    · rw [found]
      split <;> rfl
    · have there : tree.get? (base ++ rest) = some old := by
        rw [get?_append, ht, Option.bind_some, hold]
      rw [split, entryAt_eq_none, there] at free
      cases free

theorem found_file (skip : Path) {path : Path} (h : isWorksheet path = false)
    (content : ByteArray) : found skip path (.file content) = [] := by
  rw [found, if_neg (by simp [h])]

/-- A file that is no worksheet or that goes into the folder that is left out is not noticed. -/
theorem unnoticed_write {p : Path} {content : ByteArray}
    (h : ∀ folder name, Aims tree p folder name → ∀ rest, folder ++ [name] = base ++ rest →
      rest ≠ [] → isWorksheet (root.under rest) = false ∨
        ∃ above below, rest = above ++ below ∧ below ≠ [] ∧ (root.under above).sameAs skip = true) :
    Unnoticed skip root base tree (tree.act (.write p content)).1 := by
  cases hw : tree.write p content with
  | error error =>
    rw [act_write_of_error hw]
    exact .refl _ _ _ tree
  | ok written =>
    rw [act_write_of_ok hw]
    obtain ⟨-, folder, name, aims, notFolder, hput⟩ := eq_put_of_write hw
    rw [hput]
    refine unnoticed_put notFolder fun rest t split notNil ht => ?_
    rcases h folder name aims rest split notNil with other | left
    · refine .inr ⟨found_file skip other content, fun old hold => ?_⟩
      cases old with
      | file content => exact found_file skip other content
      | folder entries =>
        refine absurd (entryAt_eq_some_folder.2 ⟨entries, ?_⟩) notFolder
        rw [split, get?_append, ht, Option.bind_some, hold]
    · exact .inl left

end Unnoticed

/-! ## One worksheet -/

section One

variable {options : Options} {root x : Path} {dirs : List String} {name code : String}
  {tree : FileTree} {base : Place} {plan : Plan}

/-- Wherever an attachment goes, it is no worksheet. -/
theorem unnoticed_write_item (skip : Path) (notEmpty : root.text ≠ "") (base : Place)
    (tree : FileTree) (p : Path) (a : Attachment) (content : ByteArray) :
    Unnoticed skip root base tree (tree.act (.write (p.join ⟨a.fileName⟩) content)).1 := by
  refine unnoticed_write fun folder n aims rest split notNil => .inl ?_
  obtain ⟨init, last, rfl⟩ : ∃ init last, rest = init ++ [last] :=
    ⟨_, _, (List.dropLast_concat_getLast notNil).symm⟩
  rw [← List.append_assoc] at split
  obtain rfl : n = last := (List.cons.inj (List.append_inj' split rfl).2).1
  have components := components_join_name (text_under_ne notEmpty init) aims.isName
  rw [under_append]
  refine Bool.eq_false_iff.2 fun worksheet => ?_
  exact not_itemEnd_of_isWorksheet components worksheet (itemEnd_of_aims a aims)

theorem Ground.unnoticed_source (ground : Ground options root tree base)
    (hx : Placed options root dirs name x) (content : ByteArray) :
    Unnoticed (root.join ⟨options.outputFolder⟩) root base tree
      (tree.act (.write ((outputFolderOf root x options.outputFolder).join
        ⟨sourceName options x⟩) content)).1 := by
  refine unnoticed_write fun folder n aims rest split _ => .inr ?_
  obtain ⟨rfl, rfl⟩ := (hx.descends ground.notEmpty ground.contained).aims_eq ground.stands
    (sourceName_ne_empty options x) (hx.sourceName_noSlash ground.notEmpty ground.contained) aims
  rw [List.append_assoc, List.append_assoc] at split
  exact ⟨outputNames options, dirs ++ [sourceName options x], (List.append_cancel_left split).symm,
    by simp, ground.contained.sameAs ground.notEmpty⟩

theorem Plan.Writes.unnoticed (h : plan.Writes options root x code)
    (hx : Placed options root dirs name x) (ground : Ground options root tree base) :
    ∀ action ∈ plan.code ++ plan.attachments,
      Unnoticed (root.join ⟨options.outputFolder⟩) root base tree (tree.act action).1 := by
  intro action haction
  rcases List.mem_append.1 haction with haction | haction
  · rw [h.code_eq] at haction
    simp only [List.mem_cons, List.not_mem_nil, or_false] at haction
    rcases haction with rfl | rfl
    · exact unnoticed_makeFolders _ _ _ tree _
    · exact ground.unnoticed_source hx _
  · obtain ⟨attachments, hactions, -⟩ := h.attachments_eq
    rw [hactions] at haction
    obtain ⟨-, rfl | ⟨a, -, rfl⟩⟩ := Attachment.actions_cases haction
    · exact unnoticed_makeFolders _ _ _ tree _
    · exact unnoticed_write_item _ ground.notEmpty base tree _ a _

theorem Ground.unnoticed_convertOne (ground : Ground options root tree base)
    (hx : Placed options root dirs name x) :
    Unnoticed (root.join ⟨options.outputFolder⟩) root base tree
      (convertOne options root tree x).1 := by
  rw [convertOne_tree]
  rcases plan_cases options root tree x with
    ⟨-, failure, hplan⟩ | ⟨text, result, plan, -, -, -, hplan, writes⟩
  · rw [actionsFor_of_error hplan]
    exact .refl _ _ _ tree
  · rw [actionsFor_of_ok hplan]
    refine actAll_induction (Unnoticed.refl _ root base)
      (fun _ _ _ first second => first.trans second) fun action haction tree' grows => ?_
    exact writes.unnoticed hx (ground.of_grows grows) action haction

end One

/-! ## All worksheets -/

/-- The tree has grown to `current`, a search finds the same, and the files have their contents. -/
structure Undisturbed (options : Options) (root : Path) (base : Place) (files : List Path)
    (tree current : FileTree) : Prop where
  grows : Grows tree current
  unnoticed : Unnoticed (root.join ⟨options.outputFolder⟩) root base tree current
  contents : ∀ w ∈ files, ∀ content, current.read w = .ok content ↔ tree.read w = .ok content

section All

variable {options : Options} {root w x : Path} {tree current : FileTree} {base : Place}
  {files xs : List Path}

theorem Setting.undisturbed_convertOne (setting : Setting options root tree base files)
    (h : Undisturbed options root base files tree current) (hx : x ∈ files) :
    Undisturbed options root base files tree (convertOne options root current x).1 := by
  obtain ⟨dirs, name, placed⟩ := setting.placed x hx
  have ground := setting.toGround.of_grows h.grows
  refine ⟨h.grows.trans (grows_convertOne options root current x),
    h.unnoticed.trans (ground.unnoticed_convertOne placed), fun w hw content => ?_⟩
  rw [setting.read_convertOne_iff h.grows hx hw, h.contents w hw]

theorem Setting.undisturbed_run (setting : Setting options root tree base files)
    (sub : ∀ x ∈ xs, x ∈ files) {s : State}
    (h : Undisturbed options root base files tree s.tree) :
    Undisturbed options root base files tree (xs.foldl (State.step options root) s).tree := by
  induction xs generalizing s with
  | nil => exact h
  | cons x rest ih =>
    obtain ⟨hx, sub⟩ := List.forall_mem_cons.1 sub
    exact ih sub (setting.undisturbed_convertOne h hx)

/-- What is found below the root is what a search of the folder at its place finds. -/
theorem Ground.discover_eq {entries : List (String × FileTree)}
    (ground : Ground options root tree base) (hget : tree.get? base = some (.folder entries)) :
    discover tree root (root.join ⟨options.outputFolder⟩) =
      .ok (found (root.join ⟨options.outputFolder⟩) root (.folder entries)) := by
  have searched := ground.contained.not_sameAs ground.notEmpty
  rw [discover, ground.stands.list_eq ground.notEmpty hget, found, searched]
  rfl

theorem exists_file_of_mem_found {skip path : Path} (named : tree.WellNamed)
    (distinct : tree.Distinct) (h : w ∈ found skip path tree) :
    ∃ names content, w = path.under names ∧ (∀ n ∈ names, IsName n) ∧
      tree.get? names = some (.file content) := by
  induction distinct generalizing path with
  | file content =>
    rw [found] at h
    split at h
    · exact ⟨[], content, List.mem_singleton.1 h, by simp, get?_nil _⟩
    · cases h
  | folder nodup inner ih =>
    cases named with
    | folder isNames named =>
      rw [found] at h
      split at h
      · cases h
      · obtain ⟨e, he, hw⟩ := mem_inOrder_foundIn.1 h
        obtain ⟨names, content, hpath, isName, hget⟩ := ih e he (named e he) hw
        refine ⟨e.1 :: names, content, hpath, List.forall_mem_cons.2 ⟨isNames e he, isName⟩, ?_⟩
        rw [get?_folder_cons, lookup_of_mem nodup he, Option.bind_some, hget]

theorem Ground.exists_read {entries : List (String × FileTree)} {skip : Path}
    (ground : Ground options root tree base) (named : tree.WellNamed) (distinct : tree.Distinct)
    (hget : tree.get? base = some (.folder entries)) (h : w ∈ found skip root (.folder entries)) :
    ∃ content, tree.read w = .ok content := by
  obtain ⟨names, content, rfl, isName, hfile⟩ :=
    exists_file_of_mem_found (named.get? hget) (distinct.get? hget) h
  rcases List.eq_nil_or_concat names with rfl | ⟨init, last, rfl⟩
  · simp [get?_nil] at hfile
  · rw [List.concat_eq_append] at hfile isName ⊢
    have descends := (Descends.refl ground.notEmpty).under fun n hn =>
      isName n (List.mem_append_left _ hn)
    refine ⟨content, ?_⟩
    rw [under_append]
    refine (descends.read_join_name_iff ground.stands (isName last (by simp))).2 ?_
    rw [List.nil_append, List.append_assoc, fileAt_eq_some_iff, entryAt_eq_some_file, get?_append,
      hget, Option.bind_some, hfile]

/-- A batch that is carried out leaves its inputs alone, whatever the worksheets hold and whichever
of them fail: afterwards the same worksheets are found in the same order, and each has the content
that it had. -/
theorem discover_convert {result : Summary × List String} (contained : options.Contained)
    (named : tree.WellNamed) (distinct : tree.Distinct)
    (done : (convert options root tree).2 = .ok result) :
    ∃ files,
      discover tree root (root.join ⟨options.outputFolder⟩) = .ok files ∧
      discover (convert options root tree).1 root (root.join ⟨options.outputFolder⟩) = .ok files ∧
      ∀ w ∈ files, ∃ content,
        tree.read w = .ok content ∧ (convert options root tree).1.read w = .ok content := by
  cases discovered : discover tree root (root.join ⟨options.outputFolder⟩) with
  | error error =>
    rw [convert, discovered] at done
    cases done
  | ok files =>
    obtain ⟨base, setting⟩ := exists_setting contained named discovered
    obtain ⟨entries, hget⟩ := entryAt_eq_some_folder.1 setting.stands.folder
    have undisturbed := setting.undisturbed_run (fun _ hx => hx) (s := { tree })
      ⟨.refl tree, .refl _ _ _ tree, fun _ _ _ => Iff.rfl⟩
    rw [← convert_tree discovered] at undisturbed
    obtain ⟨entries', hget', same⟩ := undisturbed.unnoticed entries hget
    have first := setting.toGround.discover_eq hget
    have again := (setting.toGround.of_grows undisturbed.grows).discover_eq hget'
    obtain rfl := Except.ok.inj (discovered.symm.trans first)
    refine ⟨_, rfl, by rw [again, same], fun w hw => ?_⟩
    obtain ⟨content, hread⟩ := setting.toGround.exists_read named distinct hget hw
    exact ⟨content, hread, (undisturbed.contents w hw content).2 hread⟩

end All

/-! ## An attachment among the inputs -/

/-- A worksheet whose attachment goes up four folders. -/
def straySheet : String :=
  "<w xmlns=\"http://schemas.mathsoft.com/worksheet30\"><binaryContent>" ++
    "<i item-id=\"x/../../../../y\"/></binaryContent></w>"

/-- A folder with this worksheet, one that cannot be read, and outputs. -/
def strayTree : FileTree :=
  .folder [("w", .folder
    [("b.xmcd", .file "b".toUTF8),
     ("Net", .folder [("bin", .folder [("a", .folder [("itemx", .folder [])])])]),
     ("a.xmcd", .file straySheet.toUTF8)])]

theorem wellNamed_strayTree : strayTree.WellNamed := by
  have single {name : String} {t : FileTree} (hname : IsName name) (ht : t.WellNamed) :
      WellNamed (.folder [(name, t)]) :=
    .folder (by simpa using hname) (by simpa using ht)
  have outputs : WellNamed (.folder [("bin", .folder [("a", .folder [("itemx", .folder [])])])]) :=
    single (by decide) (single (by decide) (single (by decide) (.folder (by simp) (by simp))))
  refine single (by decide) (.folder (by decide) ?_)
  simp only [List.forall_mem_cons]
  exact ⟨.file _, outputs, .file _, by simp⟩

theorem distinct_strayTree : strayTree.Distinct := by
  have single {name : String} {t : FileTree} (ht : t.Distinct) : Distinct (.folder [(name, t)]) :=
    .folder (by simp) (by simpa using ht)
  have outputs : Distinct (.folder [("bin", .folder [("a", .folder [("itemx", .folder [])])])]) :=
    single (single (single (.folder (by simp) (by simp))))
  refine single (.folder (by decide) ?_)
  simp only [List.forall_mem_cons]
  exact ⟨.file _, outputs, .file _, by simp⟩

/-- One worksheet is converted and one fails, and the attachment stands among the worksheets. -/
theorem discover_convert_strayTree :
    ((convert {} ⟨"w"⟩ strayTree).2.toOption.map fun result =>
        (result.1.translated, result.1.failed)) = some (1, 1) ∧
      (strayTree.fileAt ["w", "y.png"]).isSome = false ∧
      ((convert {} ⟨"w"⟩ strayTree).1.fileAt ["w", "y.png"]).isSome = true ∧
      ∃ files,
        discover strayTree ⟨"w"⟩ ⟨"w/Net"⟩ = .ok files ∧
        discover (convert {} ⟨"w"⟩ strayTree).1 ⟨"w"⟩ ⟨"w/Net"⟩ = .ok files ∧
        ∀ w ∈ files, ∃ content,
          strayTree.read w = .ok content ∧ (convert {} ⟨"w"⟩ strayTree).1.read w = .ok content := by
  have some : (convert {} ⟨"w"⟩ strayTree).2.toOption.isSome = true := by
    decide +kernel
  obtain ⟨result, done⟩ := Option.isSome_iff_exists.1 some
  exact ⟨by decide +kernel, by decide +kernel, by decide +kernel,
    discover_convert contained_usual wellNamed_strayTree distinct_strayTree
      (toOption_eq_some_iff.1 done)⟩

end Batch

end Calcsheet
