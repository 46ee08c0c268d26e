import Calcsheet.Proofs.FileTree.Sight

/-!
# What actions do to a file tree

A file that is written stands where its path aims, and all else is as it was (`exists_of_write`).
Making folders only adds folders where nothing was (`addsFolders_makeFolders`). So a tree grows
whatever is done to it (`grows_actAll`). A file holds what was last written there, or what it held
(`fileAt_actAll`), and whatever changes shows at one of the paths of the actions
(`showsAt_actAll`).
-/

namespace Calcsheet

/-- A path, its parent, and so on upwards, at most so many. -/
def Path.lineage : Nat → Path → List Path
  | 0, _ => []
  | n + 1, p => p :: (p.parent?.map (lineage n)).getD []

namespace FileTree

/-! ## Single actions -/

section Single

variable {tree tree' : FileTree} {p : Path} {place : Place} {name : String} {content : ByteArray}

theorem entryAt_isNone_iff : (tree.get? place).isNone = true ↔ tree.entryAt place = none := by
  rw [Option.isNone_iff_eq_none, entryAt_eq_none]

theorem eq_put_of_makeFolder {made : FileTree} (h : tree.makeFolder p = .ok made) :
    ∃ place name, Aims tree p place name ∧ tree.entryAt (place ++ [name]) = none ∧
      made = put (.folder []) (place ++ [name]) tree := by
  obtain ⟨⟨place, name⟩, htarget, h⟩ := bind_eq_ok_iff.1 h
  dsimp only at h
  split at h
  · next fits =>
    obtain ⟨proper, free⟩ := fits
    exact ⟨place, name, .of_target htarget proper, entryAt_isNone_iff.1 free,
      (Except.ok.inj h).symm⟩
  · cases h

/-- A folder that is made stands where the path aims, and nothing stood there. -/
theorem exists_of_makeFolder {made : FileTree} (h : tree.makeFolder p = .ok made) :
    ∃ place name, Aims tree p place name ∧ tree.entryAt (place ++ [name]) = none ∧
      Becomes tree (place ++ [name]) .folder made := by
  obtain ⟨place, name, aims, none, rfl⟩ := eq_put_of_makeFolder h
  exact ⟨place, name, aims, none, fun q => entryAt_put (by simp [get?_folder_cons]) aims.folder
    (by simp [none]) q⟩

/-- Where a path leads somewhere no folder is made. -/
theorem makeFolder_of_sight {e : Entry} (h : tree.sight p = .ok e) :
    tree.makeFolder p = .error .alreadyExists := by
  obtain ⟨place, name, htarget, there⟩ := exists_target_of_sight h
  have taken : ¬ (isProperName name = true ∧ (tree.get? (place ++ [name])).isNone = true) := by
    rintro ⟨proper, free⟩
    have := there proper
    simp [entryAt_isNone_iff.1 free] at this
  unfold makeFolder
  rw [htarget]
  exact if_neg taken

theorem eq_put_of_write {written : FileTree} (h : tree.write p content = .ok written) :
    endsInSlash p = false ∧ ∃ place name, Aims tree p place name ∧
      tree.entryAt (place ++ [name]) ≠ some .folder ∧
      written = put (.file content) (place ++ [name]) tree := by
  obtain ⟨⟨place, name⟩, htarget, h⟩ := bind_eq_ok_iff.1 h
  dsimp only at h
  cases fits : isProperName name && !endsInSlash p with
  | false => simp [fits] at h
  | true =>
    obtain ⟨proper, slash⟩ : isProperName name = true ∧ endsInSlash p = false := by
      simpa using fits
    have notFolder : tree.entryAt (place ++ [name]) ≠ some .folder := by
      intro folder
      obtain ⟨entries, hget⟩ := entryAt_eq_some_folder.1 folder
      simp [fits, hget] at h
    refine ⟨slash, place, name, .of_target htarget proper, notFolder, ?_⟩
    rw [fits] at h
    split at h
    · exact (Except.ok.inj h).symm
    · exact (Except.ok.inj h).symm
    · cases h

/-- A file that is written stands where the path aims, and no folder stood there. -/
theorem exists_of_write {written : FileTree} (h : tree.write p content = .ok written) :
    endsInSlash p = false ∧ ∃ place name, Aims tree p place name ∧
      tree.entryAt (place ++ [name]) ≠ some .folder ∧
      Becomes tree (place ++ [name]) (.file content) written := by
  obtain ⟨slash, place, name, aims, notFolder, rfl⟩ := eq_put_of_write h
  exact ⟨slash, place, name, aims, notFolder,
    entryAt_put (get?_file_cons content) aims.folder notFolder⟩

theorem Aims.exists_write (h : Aims tree p place name) (slash : endsInSlash p = false)
    (notFolder : tree.entryAt (place ++ [name]) ≠ some .folder) (content : ByteArray) :
    ∃ written, tree.write p content = .ok written := by
  have fits : (isProperName name && !endsInSlash p) = true := by simp [h.proper, slash]
  unfold write
  rw [h.target]
  cases hget : tree.get? (place ++ [name]) with
  | none => simp [bind, Except.bind, fits, hget]
  | some t =>
    cases t with
    | file old => simp [bind, Except.bind, fits, hget]
    | folder entries => exact absurd (entryAt_eq_some_folder.2 ⟨entries, hget⟩) notFolder

theorem Becomes.entryAt_self {e : Entry} (h : Becomes tree place e tree') :
    tree'.entryAt place = some e := by
  rw [h, if_pos rfl]

theorem Becomes.entryAt_of_ne {e : Entry} {q : Place} (h : Becomes tree place e tree')
    (ne : q ≠ place) : tree'.entryAt q = tree.entryAt q := by
  rw [h, if_neg ne]

theorem Becomes.fileAt_eq (h : Becomes tree place (.file content) tree') (q : Place) :
    tree'.fileAt q = if place = q then some content else tree.fileAt q := by
  unfold fileAt
  split
  · next eq => rw [← eq, h.entryAt_self, Option.bind_some, Entry.content?]
  · next ne => rw [h.entryAt_of_ne (Ne.symm ne)]

theorem Becomes.grows_of_file (h : Becomes tree place (.file content) tree')
    (notFolder : tree.entryAt place ≠ some .folder) : Grows tree tree' := by
  constructor
  · intro q hq
    rw [h.entryAt_of_ne, hq]
    rintro rfl
    exact notFolder hq
  · intro q old hq
    by_cases eq : q = place
    · exact ⟨content, by rw [eq, h.entryAt_self]⟩
    · exact ⟨old, by rw [h.entryAt_of_ne eq, hq]⟩

end Single

/-! ## Making folders -/

/-- Makes one folder, or finds it there. -/
def settle (tree : FileTree) (p : Path) : FileTree × Option FileError :=
  match tree.makeFolder p with
  | .ok made => (made, none)
  | .error error => if tree.hasFolder p then (tree, none) else (tree, some error)

section MakeFolders

variable {tree tree' : FileTree} {p parent : Path}

theorem makeFoldersWithin_of_ne (n : Nat) (h : tree.makeFolder p ≠ .error .notFound) :
    makeFoldersWithin (n + 1) tree p = tree.settle p := by
  unfold makeFoldersWithin settle
  cases hmade : tree.makeFolder p with
  | ok made => simp
  | error error =>
    have : error ≠ .notFound := fun eq => h (by rw [hmade, eq])
    cases error <;> simp at this ⊢

theorem makeFoldersWithin_of_root (n : Nat) (h : tree.makeFolder p = .error .notFound)
    (root : p.parent? = none) : makeFoldersWithin (n + 1) tree p = (tree, some .notFound) := by
  unfold makeFoldersWithin
  simp [h, root]

theorem makeFoldersWithin_of_parent (n : Nat) (h : tree.makeFolder p = .error .notFound)
    (hparent : p.parent? = some parent) :
    makeFoldersWithin (n + 1) tree p =
      if (makeFoldersWithin n tree parent).2.isSome then makeFoldersWithin n tree parent
      else (makeFoldersWithin n tree parent).1.settle p := by
  rw [makeFoldersWithin]
  simp only [h, hparent]
  rcases makeFoldersWithin n tree parent with ⟨made, _ | error⟩
  · rfl
  · rfl

/-- What holds between a tree and the tree after each folder that is tried holds after all. -/
theorem makeFoldersWithin_induction {R : FileTree → FileTree → Prop} (refl : ∀ tree, R tree tree)
    (trans : ∀ tree tree' tree'', R tree tree' → R tree' tree'' → R tree tree'') {n : Nat}
    (step : ∀ q ∈ p.lineage n, ∀ tree, R tree (tree.settle q).1) :
    R tree (makeFoldersWithin n tree p).1 := by
  induction n generalizing p with
  | zero => exact refl tree
  | succ n ih =>
    have last := step p List.mem_cons_self
    by_cases missing : tree.makeFolder p = .error .notFound
    · cases hparent : p.parent? with
      | none =>
        rw [makeFoldersWithin_of_root n missing hparent]
        exact refl tree
      | some parent =>
        have above := ih (p := parent) fun q hq => step q (by simp [Path.lineage, hparent, hq])
        rw [makeFoldersWithin_of_parent n missing hparent]
        split
        · exact above
        · exact trans _ _ _ above (last _)
    · rw [makeFoldersWithin_of_ne n missing]
      exact last tree

/-- Folders are there now where nothing was, and all else is as it was. -/
def AddsFolders (tree tree' : FileTree) : Prop :=
  ∀ q, tree'.entryAt q = tree.entryAt q ∨ tree.entryAt q = none ∧ tree'.entryAt q = some .folder

theorem AddsFolders.refl (tree : FileTree) : AddsFolders tree tree :=
  fun _ => .inl rfl

theorem AddsFolders.trans {tree'' : FileTree} (first : AddsFolders tree tree')
    (second : AddsFolders tree' tree'') : AddsFolders tree tree'' := by
  intro q
  rcases second q with same | ⟨free, made⟩
  · rw [same]
    exact first q
  · rcases first q with same | ⟨-, there⟩
    · exact .inr ⟨same ▸ free, made⟩
    · simp [there] at free

theorem AddsFolders.grows (h : AddsFolders tree tree') : Grows tree tree' := by
  have kept (q : Place) (old : Entry) (hq : tree.entryAt q = some old) :
      tree'.entryAt q = some old := by
    rcases h q with same | ⟨free, -⟩
    · rw [same, hq]
    · simp [hq] at free
  exact ⟨fun hq => kept _ _ hq, fun hq => ⟨_, kept _ _ hq⟩⟩

theorem AddsFolders.fileAt_eq (h : AddsFolders tree tree') (q : Place) :
    tree'.fileAt q = tree.fileAt q := by
  unfold fileAt
  rcases h q with same | ⟨free, made⟩
  · rw [same]
  · rw [free, made]
    rfl

theorem settle_cases (tree : FileTree) (p : Path) :
    (tree.settle p).1 = tree ∨ tree.makeFolder p = .ok (tree.settle p).1 := by
  unfold settle
  cases tree.makeFolder p with
  | ok made => exact .inr rfl
  | error error =>
    left
    dsimp only
    split <;> rfl

theorem addsFolders_settle (tree : FileTree) (p : Path) : AddsFolders tree (tree.settle p).1 := by
  rcases settle_cases tree p with same | made
  · rw [same]
    exact .refl tree
  · obtain ⟨place, name, -, free, becomes⟩ := exists_of_makeFolder made
    intro q
    by_cases eq : q = place ++ [name]
    · rw [eq]
      exact .inr ⟨free, becomes.entryAt_self⟩
    · exact .inl (becomes.entryAt_of_ne eq)

theorem addsFolders_makeFolders (tree : FileTree) (p : Path) :
    AddsFolders tree (tree.makeFolders p).1 :=
  makeFoldersWithin_induction AddsFolders.refl (fun _ _ _ first second => first.trans second)
    fun q _ tree => addsFolders_settle tree q

theorem makeFolders_of_folder (h : tree.sight p = .ok .folder) : tree.makeFolders p = (tree, none) := by
  unfold makeFolders
  cases p.components.length with
  | zero => rfl
  | succ n =>
    have made := makeFolder_of_sight h
    rw [makeFoldersWithin_of_ne n (by simp [made]), settle]
    simp [made, hasFolder_iff.2 h]

end MakeFolders

/-! ## Actions -/

section Actions

variable {tree tree' : FileTree}

theorem act_write_of_ok {p : Path} {content : ByteArray} {written : FileTree}
    (h : tree.write p content = .ok written) : tree.act (.write p content) = (written, none) := by
  rw [act, h]

theorem act_write_of_error {p : Path} {content : ByteArray} {error : FileError}
    (h : tree.write p content = .error error) :
    tree.act (.write p content) = (tree, some error) := by
  rw [act, h]

theorem grows_act (tree : FileTree) (action : Action) : Grows tree (tree.act action).1 := by
  cases action with
  | makeFolders p => exact (addsFolders_makeFolders tree p).grows
  | write p content =>
    cases h : tree.write p content with
    | error error =>
      rw [act_write_of_error h]
      exact .refl tree
    | ok written =>
      rw [act_write_of_ok h]
      obtain ⟨-, place, name, -, notFolder, becomes⟩ := exists_of_write h
      exact becomes.grows_of_file notFolder

theorem actAll_cons (tree : FileTree) (action : Action) (rest : List Action) :
    tree.actAll (action :: rest) =
      if (tree.act action).2.isSome then tree.act action
      else (tree.act action).1.actAll rest := by
  rw [actAll]
  rcases tree.act action with ⟨made, _ | error⟩
  · rfl
  · rfl

theorem actAll_cons_of_none {action : Action} {rest : List Action}
    (h : (tree.actAll (action :: rest)).2 = none) :
    (tree.act action).2 = none ∧ tree.actAll (action :: rest) = (tree.act action).1.actAll rest := by
  rw [actAll_cons] at h ⊢
  split at h
  · next failed => simp [h] at failed
  · next done => exact ⟨by simpa using done, if_neg done⟩

theorem exists_write_of_act_none {p : Path} {content : ByteArray}
    (h : (tree.act (.write p content)).2 = none) :
    ∃ written, tree.write p content = .ok written := by
  cases hw : tree.write p content with
  | ok written => exact ⟨written, rfl⟩
  | error error =>
    rw [act_write_of_error hw] at h
    cases h

theorem actAll_append (tree : FileTree) (actions rest : List Action) :
    tree.actAll (actions ++ rest) =
      if (tree.actAll actions).2.isSome then tree.actAll actions
      else (tree.actAll actions).1.actAll rest := by
  induction actions generalizing tree with
  | nil => rfl
  | cons action actions ih =>
    rw [List.cons_append, actAll_cons, actAll_cons]
    split
    · rfl
    · exact ih _

/-- What holds between a tree and the tree after each action holds after all of them. -/
theorem actAll_induction {R : FileTree → FileTree → Prop} (refl : ∀ tree, R tree tree)
    (trans : ∀ tree tree' tree'', R tree tree' → R tree' tree'' → R tree tree'')
    {actions : List Action} {tree : FileTree}
    (step : ∀ action ∈ actions, ∀ tree', Grows tree tree' → R tree' (tree'.act action).1) :
    R tree (tree.actAll actions).1 := by
  induction actions generalizing tree with
  | nil => exact refl tree
  | cons action rest ih =>
    have first := step action List.mem_cons_self tree (.refl tree)
    rw [actAll_cons]
    split
    · exact first
    · refine trans _ _ _ first (ih fun action' h tree' grows => ?_)
      exact step action' (List.mem_cons_of_mem _ h) tree' ((grows_act tree action).trans grows)

theorem grows_actAll (tree : FileTree) (actions : List Action) :
    Grows tree (tree.actAll actions).1 :=
  actAll_induction Grows.refl (fun _ _ _ first second => first.trans second)
    fun action _ tree' _ => grows_act tree' action

end Actions

/-! ## What is written at a place -/

/-- What an action writes at a place. -/
def Action.written? (tree : FileTree) (place : Place) : Action → Option ByteArray
  | .makeFolders _ => none
  | .write p content =>
    (tree.write p content).toOption.bind fun written =>
      if (written.locate p).toOption = some place then some content else none

/-- What actions write at a place, in order, up to the first that goes wrong. -/
def writtenAt (place : Place) : FileTree → List Action → List ByteArray
  | _, [] => []
  | tree, action :: rest =>
    (action.written? tree place).toList ++
      if (tree.act action).2.isSome then [] else writtenAt place (tree.act action).1 rest

section Written

variable {tree tree' : FileTree} {place : Place}

theorem written?_of_write {p : Path} {content : ByteArray} {written : FileTree} {folder : Place}
    {name : String} (h : tree.write p content = .ok written) (aims : Aims tree p folder name) :
    (Action.write p content).written? tree place =
      if folder ++ [name] = place then some content else none := by
  obtain ⟨slash, folder', name', aims', notFolder, becomes⟩ := exists_of_write h
  obtain ⟨rfl, rfl⟩ := Prod.mk.inj (Except.ok.inj (aims.target.symm.trans aims'.target))
  have located := (aims'.of_grows (becomes.grows_of_file notFolder)).locate becomes.entryAt_self
    (by simp [slash])
  rw [Action.written?, h]
  simp [Except.toOption, located]

theorem written?_of_error {p : Path} {content : ByteArray} {error : FileError}
    (h : tree.write p content = .error error) :
    (Action.write p content).written? tree place = none := by
  rw [Action.written?, h]
  rfl

/-- A file holds what the action wrote there, or else what it held. -/
theorem fileAt_act (tree : FileTree) (place : Place) (action : Action) :
    (tree.act action).1.fileAt place = (action.written? tree place).or (tree.fileAt place) := by
  cases action with
  | makeFolders p => exact (addsFolders_makeFolders tree p).fileAt_eq place
  | write p content =>
    cases h : tree.write p content with
    | error error =>
      rw [act_write_of_error h, written?_of_error h]
      rfl
    | ok written =>
      obtain ⟨-, folder, name, aims, -, becomes⟩ := exists_of_write h
      rw [act_write_of_ok h, written?_of_write h aims, becomes.fileAt_eq]
      split <;> rfl

/-- A file holds what was last written there, or else what it held. -/
theorem fileAt_actAll (tree : FileTree) (place : Place) (actions : List Action) :
    (tree.actAll actions).1.fileAt place =
      (writtenAt place tree actions).getLast?.or (tree.fileAt place) := by
  induction actions generalizing tree with
  | nil => rfl
  | cons action rest ih =>
    have last : (action.written? tree place).toList.getLast? = action.written? tree place := by
      cases action.written? tree place <;> rfl
    rw [actAll_cons, writtenAt]
    split
    · rw [List.append_nil, last, fileAt_act]
    · rw [ih, List.getLast?_append, last, fileAt_act, Option.or_assoc]

theorem writtenAt_append (tree : FileTree) (place : Place) (actions rest : List Action) :
    writtenAt place tree (actions ++ rest) =
      writtenAt place tree actions ++
        if (tree.actAll actions).2.isSome then []
        else writtenAt place (tree.actAll actions).1 rest := by
  induction actions generalizing tree with
  | nil => rfl
  | cons action actions ih =>
    rw [List.cons_append, writtenAt, writtenAt, actAll_cons]
    by_cases failed : (tree.act action).2.isSome = true
    · simp [failed]
    · simp only [if_neg failed]
      rw [ih, List.append_assoc]

theorem exists_write_of_written? {action : Action} {content : ByteArray}
    (h : action.written? tree place = some content) :
    ∃ p, action = .write p content ∧ place = resolve [] (steps p) := by
  cases action with
  | makeFolders p => cases h
  | write p content' =>
    cases hw : tree.write p content' with
    | error error =>
      rw [written?_of_error hw] at h
      cases h
    | ok written =>
      obtain ⟨-, folder, name, aims, -⟩ := exists_of_write hw
      rw [written?_of_write hw aims] at h
      split at h
      · next same =>
        obtain rfl := Option.some.inj h
        exact ⟨p, rfl, by rw [← same, aims.resolve_eq]⟩
      · cases h

/-- What is written at a place is written by one of the actions, whose path resolves to the place. -/
theorem exists_write_of_mem_writtenAt {actions : List Action} {content : ByteArray}
    (h : content ∈ writtenAt place tree actions) :
    ∃ p, .write p content ∈ actions ∧ place = resolve [] (steps p) := by
  induction actions generalizing tree with
  | nil => cases h
  | cons action rest ih =>
    rw [writtenAt, List.mem_append] at h
    rcases h with first | later
    · obtain ⟨p, rfl, hp⟩ := exists_write_of_written? (Option.mem_toList.1 first)
      exact ⟨p, List.mem_cons_self, hp⟩
    · split at later
      · cases later
      · obtain ⟨p, hmem, hp⟩ := ih later
        exact ⟨p, List.mem_cons_of_mem _ hmem, hp⟩

/-- In no tree grown from this one does the action write a file at the place. -/
def Avoids (tree : FileTree) (place : Place) (action : Action) : Prop :=
  ∀ p content, action = .write p content → ∀ tree', Grows tree tree' →
    ∀ folder name, Aims tree' p folder name → folder ++ [name] ≠ place

theorem Avoids.of_grows {action : Action} (h : Avoids tree place action)
    (grows : Grows tree tree') : Avoids tree' place action :=
  fun p content eq tree'' grows' => h p content eq tree'' (grows.trans grows')

theorem Avoids.written?_eq_none {action : Action} (h : Avoids tree place action) :
    action.written? tree place = none := by
  cases action with
  | makeFolders p => rfl
  | write p content =>
    cases hw : tree.write p content with
    | error error => exact written?_of_error hw
    | ok written =>
      obtain ⟨-, folder, name, aims, -⟩ := exists_of_write hw
      have ne := h p content rfl tree (.refl tree) folder name aims
      rw [written?_of_write hw aims, if_neg ne]

theorem writtenAt_eq_nil {actions : List Action}
    (h : ∀ action ∈ actions, Avoids tree place action) : writtenAt place tree actions = [] := by
  induction actions generalizing tree with
  | nil => rfl
  | cons action rest ih =>
    obtain ⟨first, others⟩ := List.forall_mem_cons.1 h
    have later := ih fun action' haction => (others action' haction).of_grows (grows_act tree action)
    rw [writtenAt, first.written?_eq_none, later]
    split <;> rfl

end Written

/-! ## Where actions show -/

/-- The paths at which an action may make or write something. -/
def Action.paths : Action → List Path
  | .makeFolders p => p.lineage p.components.length
  | .write p _ => [p]

/-- A tree grew to another, and what changed shows at one of the paths. -/
structure ShowsAt (paths : List Path) (tree tree' : FileTree) : Prop where
  grows : Grows tree tree'
  shows_of_ne : ∀ q, tree'.entryAt q ≠ tree.entryAt q →
    ∃ p ∈ paths, tree'.locate p = .ok q ∧ (tree'.entryAt q).isSome = true

section ShowsAt

variable {tree tree' tree'' : FileTree} {paths : List Path}

theorem ShowsAt.refl (paths : List Path) (tree : FileTree) : ShowsAt paths tree tree :=
  ⟨.refl tree, fun _ changed => absurd rfl changed⟩

theorem ShowsAt.trans (first : ShowsAt paths tree tree') (second : ShowsAt paths tree' tree'') :
    ShowsAt paths tree tree'' := by
  refine ⟨first.grows.trans second.grows, fun q changed => ?_⟩
  by_cases later : tree''.entryAt q = tree'.entryAt q
  · rw [later] at changed ⊢
    obtain ⟨p, hp, hlocate, there⟩ := first.shows_of_ne q changed
    exact ⟨p, hp, second.grows.locate hlocate, there⟩
  · exact second.shows_of_ne q later

theorem Becomes.showsAt {p : Path} {place : Place} {name : String} {e : Entry}
    (h : Becomes tree (place ++ [name]) e tree') (grows : Grows tree tree')
    (aims : Aims tree p place name) (slash : endsInSlash p = true → e = .folder) (hp : p ∈ paths) :
    ShowsAt paths tree tree' := by
  refine ⟨grows, fun q changed => ?_⟩
  obtain rfl : q = place ++ [name] :=
    Classical.byContradiction fun ne => changed (h.entryAt_of_ne ne)
  exact ⟨p, hp, (aims.of_grows grows).locate h.entryAt_self slash, by simp [h.entryAt_self]⟩

theorem showsAt_settle {p : Path} (hp : p ∈ paths) (tree : FileTree) :
    ShowsAt paths tree (tree.settle p).1 := by
  rcases settle_cases tree p with same | made
  · rw [same]
    exact .refl _ tree
  · obtain ⟨place, name, aims, -, becomes⟩ := exists_of_makeFolder made
    exact becomes.showsAt (addsFolders_settle tree p).grows aims (fun _ => rfl) hp

theorem showsAt_act {action : Action} (sub : ∀ p ∈ action.paths, p ∈ paths) (tree : FileTree) :
    ShowsAt paths tree (tree.act action).1 := by
  cases action with
  | makeFolders p =>
    exact makeFoldersWithin_induction (ShowsAt.refl paths)
      (fun _ _ _ first second => first.trans second) fun q hq tree => showsAt_settle (sub q hq) tree
  | write p content =>
    cases h : tree.write p content with
    | error error =>
      rw [act_write_of_error h]
      exact .refl _ tree
    | ok written =>
      rw [act_write_of_ok h]
      obtain ⟨slash, place, name, aims, notFolder, becomes⟩ := exists_of_write h
      exact becomes.showsAt (becomes.grows_of_file notFolder) aims (by simp [slash])
        (sub p (List.mem_singleton_self p))

/-- Whatever actions change shows at one of their paths. -/
theorem showsAt_actAll (tree : FileTree) (actions : List Action) :
    ShowsAt (actions.flatMap Action.paths) tree (tree.actAll actions).1 := by
  refine actAll_induction (ShowsAt.refl _) (fun _ _ _ first second => first.trans second) ?_
  intro action haction tree' _
  exact showsAt_act (fun p hp => List.mem_flatMap.2 ⟨action, haction, hp⟩) tree'

/-- A tree is as it was if its changes show at paths that lead to what they led to. -/
theorem ShowsAt.entryAt_eq (h : ShowsAt paths tree tree')
    (same : ∀ p ∈ paths, tree'.sight p = tree.sight p) (q : Place) :
    tree'.entryAt q = tree.entryAt q := by
  refine Classical.byContradiction fun changed => ?_
  obtain ⟨p, hp, hlocate', there⟩ := h.shows_of_ne q changed
  obtain ⟨e', he'⟩ := Option.isSome_iff_exists.1 there
  have hsight' : tree'.sight p = .ok e' := sight_eq_ok_iff.2 ⟨q, hlocate', he'⟩
  obtain ⟨q', hlocate, he⟩ := sight_eq_ok_iff.1 ((same p hp).symm.trans hsight')
  have hq : q' = q := Except.ok.inj ((h.grows.locate hlocate).symm.trans hlocate')
  exact changed (by rw [he', ← hq, he])

end ShowsAt

end FileTree

end Calcsheet
