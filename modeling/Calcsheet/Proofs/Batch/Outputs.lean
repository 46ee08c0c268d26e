import Calcsheet.Proofs.Batch.Places

/-!
# What a batch leaves in its source files

Converting a worksheet writes to no worksheet, and among all source files only to its own. So what is
written at the source file of a worksheet from its turn on is its own code and that of the worksheets
after it which have their source files at the same place, and the last of these stays
(`read_source_of_translated`). Where a source file can have the name of an attachment, attachments
count as well.
-/

namespace Calcsheet.Batch

open FileTree Calcsheet.Path

/-- The outputs go into a folder below the root, which stands at `place`. -/
structure Ground (options : Options) (root : Path) (tree : FileTree) (place : Place) : Prop where
  notEmpty : root.text ≠ ""
  contained : options.Contained
  stands : StandsAt tree root place

theorem Ground.of_grows {options : Options} {root : Path} {tree tree' : FileTree} {place : Place}
    (ground : Ground options root tree place) (grows : Grows tree tree') :
    Ground options root tree' place :=
  ⟨ground.notEmpty, ground.contained, ground.stands.of_grows grows⟩

/-! ## One worksheet -/

section One

variable {options : Options} {root w x : Path} {dirs dirs' : List String} {name name' : String}
  {tree : FileTree} {place q : Place} {last code : String} {plan : Plan}

/-- An attachment is written under a name that ends as the names of attachments do. -/
theorem itemEnd_of_aims {p : Path} {folder : Place} {n : String} (a : Attachment)
    (aims : Aims tree (p.join ⟨a.fileName⟩) folder n) : itemEnd <:+ n.toList := by
  obtain ⟨init', step, hitem, hend⟩ := a.exists_last_step
  obtain ⟨init, hsteps, -⟩ := aims.route
  rw [steps_join a.isAbsolute_fileName, hitem, ← List.append_assoc] at hsteps
  obtain rfl : step = n := (List.cons.inj (List.append_inj' hsteps rfl).2).1
  exact hend

theorem avoids_write_item {p : Path} {content : ByteArray} (a : Attachment)
    (notItem : ¬ itemEnd <:+ last.toList) :
    Avoids tree (q ++ [last]) (.write (p.join ⟨a.fileName⟩) content) := by
  intro p' content' eq tree' _ folder n aims same
  obtain ⟨rfl, -⟩ := Action.write.inj eq
  obtain rfl : n = last := (List.cons.inj (List.append_inj' same rfl).2).1
  exact notItem (itemEnd_of_aims a aims)

theorem avoids_makeFolders (p : Path) : Avoids tree q (.makeFolders p) := by
  intro p' content eq
  cases eq

theorem Plan.Writes.avoids_attachments (h : plan.Writes options root x code)
    (apart : options.attachments = false ∨ ¬ itemEnd <:+ last.toList) :
    ∀ action ∈ plan.attachments, Avoids tree (q ++ [last]) action := by
  obtain ⟨attachments, hactions, unwanted⟩ := h.attachments_eq
  intro action haction
  rw [hactions] at haction
  obtain ⟨some, rfl | ⟨a, -, rfl⟩⟩ := Attachment.actions_cases haction
  · exact avoids_makeFolders _
  · rcases apart with off | notItem
    · exact absurd (unwanted off) some
    · exact avoids_write_item a notItem

theorem Plan.Writes.avoids_code (h : plan.Writes options root x code)
    (hx : Placed options root dirs' name' x) (ground : Ground options root tree place)
    (ne : sourcePlace options place dirs' x ≠ q) : ∀ action ∈ plan.code, Avoids tree q action := by
  rw [h.code_eq]
  simp only [List.forall_mem_cons, List.not_mem_nil, false_imp_iff, implies_true, and_true]
  refine ⟨avoids_makeFolders _, ?_⟩
  intro p content eq tree' grows folder n aims same
  obtain ⟨rfl, -⟩ := Action.write.inj eq
  obtain ⟨rfl, rfl⟩ := (hx.descends ground.notEmpty ground.contained).aims_eq
    (ground.stands.of_grows grows) (sourceName_ne_empty options x)
    (hx.sourceName_noSlash ground.notEmpty ground.contained) aims
  exact ne same

/-- Converting a worksheet writes no file but its own source file and attachments. -/
theorem writtenAt_actionsFor_of_ne (hx : Placed options root dirs' name' x)
    (ground : Ground options root tree place)
    (ne : sourcePlace options place dirs' x ≠ q ++ [last])
    (apart : options.attachments = false ∨ ¬ itemEnd <:+ last.toList) :
    writtenAt (q ++ [last]) tree (actionsFor options root tree x) = [] := by
  rcases plan_cases options root tree x with
    ⟨-, failure, hplan⟩ | ⟨text, result, plan, -, -, -, hplan, writes⟩
  · rw [actionsFor_of_error hplan]
    rfl
  · rw [actionsFor_of_ok hplan]
    refine writtenAt_eq_nil fun action haction => ?_
    rcases List.mem_append.1 haction with haction | haction
    · exact writes.avoids_code hx ground ne action haction
    · exact writes.avoids_attachments apart action haction

theorem fileAt_convertOne (options : Options) (root : Path) (tree : FileTree) (x : Path)
    (place : Place) :
    (convertOne options root tree x).1.fileAt place =
      (writtenAt place tree (actionsFor options root tree x)).getLast?.or (tree.fileAt place) := by
  rw [convertOne_tree, fileAt_actAll]

/-- A plan writes the code at the source file once, and then the attachments. -/
theorem Plan.Writes.writtenAt_eq (h : plan.Writes options root x code)
    (hx : Placed options root dirs' name' x) (ground : Ground options root tree place)
    (coded : (tree.actAll plan.code).2 = none) :
    IsName (sourceName options x) ∧
      writtenAt (sourcePlace options place dirs' x) tree (plan.code ++ plan.attachments) =
        code.toUTF8 :: writtenAt (sourcePlace options place dirs' x) (tree.actAll plan.code).1
          plan.attachments := by
  rw [writtenAt_append, if_neg (by simp [coded])]
  generalize writtenAt _ (tree.actAll plan.code).1 plan.attachments = more
  rw [h.code_eq] at coded ⊢
  obtain ⟨made, first⟩ := actAll_cons_of_none coded
  rw [first] at coded
  obtain ⟨done, -⟩ := actAll_cons_of_none coded
  obtain ⟨written, hwrite⟩ := exists_write_of_act_none done
  obtain ⟨-, folder, n, aims, -⟩ := exists_of_write hwrite
  have isName := hx.isName_sourceName ground.notEmpty ground.contained aims
  obtain ⟨rfl, rfl⟩ := (hx.descends ground.notEmpty ground.contained).aims_eq
    (ground.stands.of_grows (grows_act tree _)) isName.notEmpty isName.noSlash aims
  refine ⟨isName, ?_⟩
  rw [writtenAt, if_neg (by simp [made]), writtenAt, written?_of_write hwrite aims]
  simp [Action.written?, writtenAt, sourcePlace]

/-- Code can be written over a source file that is there. -/
theorem Plan.Writes.coded_of_there {old : ByteArray} (h : plan.Writes options root x code)
    (hx : Placed options root dirs' name' x) (ground : Ground options root tree place)
    (isName : IsName (sourceName options x))
    (there : tree.fileAt (sourcePlace options place dirs' x) = some old) :
    (tree.actAll plan.code).2 = none := by
  have descends := hx.descends ground.notEmpty ground.contained
  have file := fileAt_eq_some_iff.1 there
  have folder := entryAt_of_append file
  have slash := endsInSlash_join_name (outputFolderOf root x options.outputFolder) isName
  obtain ⟨written, hwrite⟩ := (descends.aims ground.stands isName folder).exists_write slash
    (by rw [← sourcePlace, file]; simp) code.toUTF8
  have made := makeFolders_of_folder (descends.sight_folder ground.stands folder)
  rw [h.code_eq, actAll_cons, act, made, if_neg (by simp), actAll_cons, act_write_of_ok hwrite]
  rfl

theorem writtenAt_actionsFor_of_code {old : ByteArray} (hx : Placed options root dirs' name' x)
    (ground : Ground options root tree place) (apart : options.TellsApart)
    (isName : IsName (sourceName options x))
    (there : tree.fileAt (sourcePlace options place dirs' x) = some old)
    (hcode : codeOf? options tree x = some code) :
    writtenAt (sourcePlace options place dirs' x) tree (actionsFor options root tree x) =
      [code.toUTF8] := by
  rcases plan_cases options root tree x with
    ⟨none, -⟩ | ⟨text, result, plan, -, -, hresult, hplan, writes⟩
  · rw [none] at hcode
    cases hcode
  · obtain rfl : result.value = code := Option.some.inj (hresult.symm.trans hcode)
    have coded := writes.coded_of_there hx ground isName there
    rw [actionsFor_of_ok hplan, (writes.writtenAt_eq hx ground coded).2, sourcePlace,
      writtenAt_eq_nil (writes.avoids_attachments (apart.sourceName x))]

/-- A worksheet that is translated has its code written to its source file, and nothing after it if
no attachment can be in its place. -/
theorem exists_written_of_convertOne_ok {plan' : Plan} (hw : Placed options root dirs name w)
    (ground : Ground options root tree place)
    (translated : (convertOne options root tree w).2 = .ok plan') :
    ∃ text result more, readText tree w = .ok text ∧
      translate (emitOptions options w) text = .ok result ∧ IsName (sourceName options w) ∧
      writtenAt (sourcePlace options place dirs w) tree (actionsFor options root tree w) =
        result.value.toUTF8 :: more ∧
      (options.TellsApart → more = []) := by
  rcases plan_cases options root tree w with
    ⟨-, failure, hplan⟩ | ⟨text, result, plan, htext, hresult, -, hplan, writes⟩
  · rw [convertOne_of_error hplan] at translated
    cases translated
  · rw [convertOne_of_ok hplan] at translated
    obtain ⟨isName, written⟩ := writes.writtenAt_eq hw ground (Plan.code_of_run_ok translated)
    rw [actionsFor_of_ok hplan]
    exact ⟨text, result, _, htext, hresult, isName, written, fun apart =>
      writtenAt_eq_nil (writes.avoids_attachments (apart.sourceName w))⟩

end One

/-! ## All worksheets -/

/-- A batch over worksheets below the root that are all outside the output folder. -/
structure Setting (options : Options) (root : Path) (tree : FileTree) (place : Place)
    (files : List Path) : Prop extends Ground options root tree place where
  placed : ∀ x ∈ files, ∃ dirs name, Placed options root dirs name x

/-- The tree has grown to `current`, and the texts of the files are what they were. -/
structure Kept (tree : FileTree) (files : List Path) (current : FileTree) : Prop where
  grows : Grows tree current
  texts : ∀ x ∈ files, (readText current x).toOption = (readText tree x).toOption

/-- What converting worksheets one after another writes at a place, in order. -/
def writtenBy (options : Options) (root : Path) (place : Place) :
    FileTree → List Path → List ByteArray
  | _, [] => []
  | tree, x :: rest =>
    writtenAt place tree (actionsFor options root tree x) ++
      writtenBy options root place (convertOne options root tree x).1 rest

section All

variable {options : Options} {root w x : Path} {dirs : List String} {name : String}
  {tree current : FileTree} {place : Place} {files xs : List Path}

theorem exists_setting (contained : options.Contained) (named : tree.WellNamed)
    (h : discover tree root (root.join ⟨options.outputFolder⟩) = .ok files) :
    ∃ place, Setting options root tree place files := by
  obtain ⟨entries, hlist, -⟩ := bind_eq_ok_iff.1 h
  obtain ⟨notEmpty, place, -, stands⟩ := exists_standsAt hlist
  exact ⟨place, ⟨notEmpty, contained, stands⟩, fun _ hx => exists_placed contained named h hx⟩

theorem toOption_readText_congr {p : Path}
    (h : ∀ content, current.read p = .ok content ↔ tree.read p = .ok content) :
    (readText current p).toOption = (readText tree p).toOption := by
  unfold readText
  cases hread : tree.read p with
  | ok content => rw [(h content).2 hread]
  | error error =>
    cases hcurrent : current.read p with
    | ok content => exact absurd ((h content).1 hcurrent) (by simp [hread])
    | error error' => rfl

theorem Placed.read_iff {content : ByteArray} (hw : Placed options root dirs name w)
    (ground : Ground options root tree place) :
    tree.read w = .ok content ↔ tree.fileAt (place ++ dirs ++ [name]) = some content := by
  have descends := (Descends.refl ground.notEmpty).under hw.isDir
  rw [hw.path_eq]
  exact descends.read_join_name_iff ground.stands hw.isName

theorem Kept.refl (tree : FileTree) (files : List Path) : Kept tree files tree :=
  ⟨.refl tree, fun _ _ => rfl⟩

theorem Kept.readText_iff {text : String} (kept : Kept tree files current) (hx : x ∈ files) :
    readText current x = .ok text ↔ readText tree x = .ok text := by
  rw [← toOption_eq_some_iff, kept.texts x hx, toOption_eq_some_iff]

theorem Kept.codeOf?_eq (kept : Kept tree files current) (hx : x ∈ files) :
    codeOf? options current x = codeOf? options tree x := by
  rw [codeOf?, kept.texts x hx, codeOf?]

/-- Converting a worksheet leaves all worksheets as they are. -/
theorem Setting.read_convertOne_iff {content : ByteArray}
    (setting : Setting options root tree place files) (grown : Grows tree current) (hx : x ∈ files)
    (hw : w ∈ files) :
    (convertOne options root current x).1.read w = .ok content ↔ current.read w = .ok content := by
  obtain ⟨dirs', name', placed⟩ := setting.placed x hx
  obtain ⟨dirs, name, hplaced⟩ := setting.placed w hw
  have ground := setting.toGround.of_grows grown
  have unwritten := writtenAt_actionsFor_of_ne placed ground (hplaced.sourcePlace_ne place x)
    (.inr (hplaced.not_itemEnd setting.notEmpty))
  rw [hplaced.read_iff (ground.of_grows (grows_convertOne options root current x)),
    hplaced.read_iff ground, fileAt_convertOne, unwritten]
  rfl

theorem Setting.kept_convertOne (setting : Setting options root tree place files)
    (kept : Kept tree files current) (hx : x ∈ files) :
    Kept tree files (convertOne options root current x).1 := by
  refine ⟨kept.grows.trans (grows_convertOne options root current x), fun y hy => ?_⟩
  rw [← kept.texts y hy]
  exact toOption_readText_congr fun content => setting.read_convertOne_iff kept.grows hx hy

theorem Setting.kept_run (setting : Setting options root tree place files)
    (sub : ∀ x ∈ xs, x ∈ files) {s : State} (kept : Kept tree files s.tree) :
    Kept tree files (xs.foldl (State.step options root) s).tree := by
  induction xs generalizing s with
  | nil => exact kept
  | cons x rest ih =>
    obtain ⟨hx, sub⟩ := List.forall_mem_cons.1 sub
    exact ih sub (setting.kept_convertOne kept hx)

/-- A file holds what the batch last wrote there, or else what it held. -/
theorem fileAt_run (options : Options) (root : Path) (place : Place) (xs : List Path) (s : State) :
    (xs.foldl (State.step options root) s).tree.fileAt place =
      (writtenBy options root place s.tree xs).getLast?.or (s.tree.fileAt place) := by
  induction xs generalizing s with
  | nil => rfl
  | cons x rest ih =>
    have first : (State.step options root s x).tree.fileAt place = _ :=
      fileAt_convertOne options root s.tree x place
    rw [List.foldl_cons, ih, first, writtenBy, List.getLast?_append, Option.or_assoc]
    rfl

/-- What is written at a source file that is there is the code of the twins. -/
theorem Setting.writtenBy_eq {old : ByteArray} (setting : Setting options root tree place files)
    (apart : options.TellsApart) (hw : Placed options root dirs name w)
    (isName : IsName (sourceName options w)) (sub : ∀ x ∈ xs, x ∈ files)
    (kept : Kept tree files current)
    (there : current.fileAt (sourcePlace options place dirs w) = some old) :
    writtenBy options root (sourcePlace options place dirs w) current xs =
      ((xs.filter (isTwin w)).filterMap (codeOf? options tree)).map String.toUTF8 := by
  induction xs generalizing current old with
  | nil => rfl
  | cons x rest ih =>
    obtain ⟨hx, sub⟩ := List.forall_mem_cons.1 sub
    obtain ⟨old', there'⟩ := (grows_convertOne options root current x).fileAt there
    have later := ih sub (setting.kept_convertOne kept hx) there'
    have ground := setting.toGround.of_grows kept.grows
    obtain ⟨dirs', name', placed⟩ := setting.placed x hx
    have twins := hw.isTwin_iff placed setting.notEmpty place
    rw [writtenBy, later]
    by_cases twin : isTwin w x = true
    · rw [List.filter_cons_of_pos twin]
      have same := twins.1 twin
      cases hcode : codeOf? options tree x with
      | some code =>
        have isName' : IsName (sourceName options x) := by
          rwa [(List.cons.inj (List.append_inj' same rfl).2).1]
        rw [← same] at there ⊢
        rw [writtenAt_actionsFor_of_code placed ground apart isName' there
          (by rw [kept.codeOf?_eq hx, hcode]), List.filterMap_cons_some hcode]
        rfl
      | none =>
        rw [actionsFor_of_none (by rw [kept.codeOf?_eq hx, hcode]), List.filterMap_cons_none hcode]
        rfl
    · have differ : sourcePlace options place dirs' x ≠ sourcePlace options place dirs w :=
        fun same => twin (twins.2 same)
      rw [List.filter_cons_of_neg twin,
        sourcePlace, writtenAt_actionsFor_of_ne placed ground differ (apart.sourceName w)]
      rfl

theorem convert_tree (h : discover tree root (root.join ⟨options.outputFolder⟩) = .ok files) :
    (convert options root tree).1 = (files.foldl (State.step options root) { tree }).tree := by
  rw [convert, h]

/-- After a batch a worksheet that was translated has a source file at its folders and stem. What was
written there from the turn of the worksheet on begins with its code, and the last of it is what the
file holds. If no attachment can be in the place of a source file, all that was written after the
code of the worksheet is the code of its twins. -/
theorem read_source_of_translated {before after : List Path} {plan : Plan}
    (contained : options.Contained) (named : tree.WellNamed)
    (discovered : discover tree root (root.join ⟨options.outputFolder⟩) = .ok (before ++ w :: after))
    (translated : (convertOne options root
      (before.foldl (State.step options root) { tree }).tree w).2 = .ok plan) :
    ∃ dirs name text result place more,
      w = root.under (dirs ++ [name]) ∧ (∀ n ∈ dirs ++ [name], IsName n) ∧
      readText tree w = .ok text ∧ readText (convert options root tree).1 w = .ok text ∧
      translate ((Calcsheet.Options.forDocument w).withNamespace? options.namespaceName?) text =
        .ok result ∧
      (convert options root tree).1.locate
          (((root.join ⟨options.outputFolder⟩).under dirs).join
            ⟨(cutName name).1 ++ "." ++ options.extension⟩) = .ok place ∧
      writtenBy options root place (before.foldl (State.step options root) { tree }).tree
          (w :: after) = result.value.toUTF8 :: more ∧
      (convert options root tree).1.read
          (((root.join ⟨options.outputFolder⟩).under dirs).join
            ⟨(cutName name).1 ++ "." ++ options.extension⟩) =
        .ok (more.getLastD result.value.toUTF8) ∧
      (options.TellsApart →
        more = ((after.filter (isTwin w)).filterMap (codeOf? options tree)).map String.toUTF8) := by
  obtain ⟨base, setting⟩ := exists_setting contained named discovered
  have hw : w ∈ before ++ w :: after := by simp
  have sub : ∀ x ∈ after, x ∈ before ++ w :: after := fun x hx => by simp [hx]
  obtain ⟨dirs, name, placed⟩ := setting.placed w hw
  have kept := setting.kept_run (fun x hx => List.mem_append_left _ hx) (s := { tree })
    (Kept.refl tree _)
  have final := setting.kept_run (fun _ hx => hx) (s := { tree }) (Kept.refl tree _)
  have ground := setting.toGround.of_grows final.grows
  have source := fileAt_run options root (sourcePlace options base dirs w) (w :: after)
    (before.foldl (State.step options root) { tree })
  rw [← List.foldl_append, ← convert_tree discovered] at source
  rw [← convert_tree discovered] at final ground
  generalize (before.foldl (State.step options root) { tree }).tree = current at *
  obtain ⟨text, result, own, htext, hresult, isName, written, alone⟩ :=
    exists_written_of_convertOne_ok placed (setting.toGround.of_grows kept.grows) translated
  have all : writtenBy options root (sourcePlace options base dirs w) current (w :: after) =
      result.value.toUTF8 :: (own ++ writtenBy options root (sourcePlace options base dirs w)
        (convertOne options root current w).1 after) := by
    rw [writtenBy, written, List.cons_append]
  rw [all, List.getLast?_cons, ← List.getLastD_eq_getLast?, Option.some_or] at source
  have htext' := (kept.readText_iff hw).1 htext
  have descends := (contained.descends setting.notEmpty).under placed.isDir
  have stem : (cutName name).1 ++ "." ++ options.extension = sourceName options w := by
    rw [← placed.stem_eq setting.notEmpty, sourceName]
  refine ⟨dirs, name, text, result, _, _, placed.path_under, placed.isName_of_mem, htext',
    (final.readText_iff hw).2 htext', hresult, ?_, all, ?_, fun apart => ?_⟩
  · rw [stem]
    exact descends.locate_join_name ground.stands isName (fileAt_eq_some_iff.1 source)
  · rw [stem]
    exact (descends.read_join_name_iff ground.stands isName).2 source
  · have there := fileAt_convertOne options root current w (sourcePlace options base dirs w)
    rw [written, List.getLast?_cons] at there
    rw [alone apart, List.nil_append]
    exact setting.writtenBy_eq apart placed isName sub (setting.kept_convertOne kept hw) there

end All

/-! ## Twins -/

/-- A worksheet that defines a number. -/
def numberSheet : String :=
  "<a xmlns:m=\"http://schemas.mathsoft.com/math30\">" ++
    "<m:define><m:id>x</m:id><m:real>1</m:real></m:define></a>"

/-- A folder with this worksheet and an empty one, whose names differ in case alone. -/
def twinTree : FileTree :=
  .folder [("w", .folder [("a.XMCD", .file numberSheet.toUTF8), ("a.xmcd", .file "<a/>".toUTF8)])]

theorem discover_twinTree :
    discover twinTree ⟨"w"⟩ ⟨"w/Net"⟩ = .ok [⟨"w/a.XMCD"⟩, ⟨"w/a.xmcd"⟩] :=
  toOption_eq_some_iff.1 (by decide +kernel)

theorem contained_usual : ({} : Options).Contained :=
  ⟨by decide, by decide, ⟨"Net", by decide⟩, by decide⟩

theorem wellNamed_twinTree : twinTree.WellNamed := by
  have sheets : WellNamed (.folder
      [("a.XMCD", .file numberSheet.toUTF8), ("a.xmcd", .file "<a/>".toUTF8)]) := by
    refine .folder (by decide) ?_
    simp only [List.forall_mem_cons]
    exact ⟨.file _, .file _, by simp⟩
  refine .folder (by decide) ?_
  simp only [List.forall_mem_cons]
  exact ⟨sheets, by simp⟩

theorem read_source_of_translated_twinTree :
    ∃ dirs name text result place more,
      (⟨"w/a.XMCD"⟩ : Path) = Path.under ⟨"w"⟩ (dirs ++ [name]) ∧ (∀ n ∈ dirs ++ [name], IsName n) ∧
      readText twinTree ⟨"w/a.XMCD"⟩ = .ok text ∧
      readText (convert {} ⟨"w"⟩ twinTree).1 ⟨"w/a.XMCD"⟩ = .ok text ∧
      translate ((Calcsheet.Options.forDocument ⟨"w/a.XMCD"⟩).withNamespace? none) text = .ok result ∧
      (convert {} ⟨"w"⟩ twinTree).1.locate
          ((Path.under ⟨"w/Net"⟩ dirs).join ⟨(cutName name).1 ++ "." ++ "cs"⟩) = .ok place ∧
      writtenBy {} ⟨"w"⟩ place twinTree [⟨"w/a.XMCD"⟩, ⟨"w/a.xmcd"⟩] = result.value.toUTF8 :: more ∧
      (convert {} ⟨"w"⟩ twinTree).1.read
          ((Path.under ⟨"w/Net"⟩ dirs).join ⟨(cutName name).1 ++ "." ++ "cs"⟩) =
        .ok (more.getLastD result.value.toUTF8) ∧
      more = (([⟨"w/a.xmcd"⟩].filter (isTwin ⟨"w/a.XMCD"⟩)).filterMap
        (codeOf? {} twinTree)).map String.toUTF8 := by
  have some : (convertOne {} ⟨"w"⟩ twinTree ⟨"w/a.XMCD"⟩).2.toOption.isSome = true := by
    decide +kernel
  obtain ⟨plan, hplan⟩ := Option.isSome_iff_exists.1 some
  have discovered : discover twinTree ⟨"w"⟩ (Path.join ⟨"w"⟩ ⟨"Net"⟩) =
      .ok ([] ++ ⟨"w/a.XMCD"⟩ :: [⟨"w/a.xmcd"⟩]) :=
    discover_twinTree
  obtain ⟨dirs, name, text, result, place, more, path, names, first, final, code, source, written,
    last, twins⟩ :=
    read_source_of_translated contained_usual wellNamed_twinTree discovered
      (toOption_eq_some_iff.1 hplan)
  exact ⟨dirs, name, text, result, place, more, path, names, first, final, code, source, written,
    last, twins (.inr (by decide))⟩

/-- Both worksheets are translated, and the code of the first is lost. -/
theorem read_source_twinTree_ne :
    discover twinTree ⟨"w"⟩ ⟨"w/Net"⟩ = .ok [⟨"w/a.XMCD"⟩, ⟨"w/a.xmcd"⟩] ∧
      (convert {} ⟨"w"⟩ twinTree).2.toOption.map (fun result => result.1.translated) = some 2 ∧
      ∃ result,
        translate ((Calcsheet.Options.forDocument ⟨"w/a.XMCD"⟩).withNamespace? none) numberSheet =
            .ok result ∧
          (convert {} ⟨"w"⟩ twinTree).1.read ⟨"w/Net/a.cs"⟩ ≠ .ok result.value.toUTF8 := by
  have some : (translate ((Calcsheet.Options.forDocument ⟨"w/a.XMCD"⟩).withNamespace? none)
      numberSheet).toOption.isSome = true := by
    decide +kernel
  have differ : ((convert {} ⟨"w"⟩ twinTree).1.read ⟨"w/Net/a.cs"⟩).toOption ≠
      (translate ((Calcsheet.Options.forDocument ⟨"w/a.XMCD"⟩).withNamespace? none)
        numberSheet).toOption.map fun result => result.value.toUTF8 := by
    decide +kernel
  obtain ⟨result, hresult⟩ := Option.isSome_iff_exists.1 some
  refine ⟨discover_twinTree, by decide +kernel, result, toOption_eq_some_iff.1 hresult, fun h => ?_⟩
  rw [h, hresult] at differ
  exact differ rfl

end Calcsheet.Batch
