import Calcsheet.Proofs.FileTree.Entry

/-!
# Where paths lead

`sight` tells what a path leads to, and reading and listing follow from it. A path that `Aims` at a
name in a folder is where something new can go; it leads there once something is there
(`Aims.locate`), and a path that leads somewhere aims there unless it ends in dots
(`exists_target_of_sight`).
-/

namespace Calcsheet.FileTree

/-! ## Where a path leads -/

/-- The steps of a path, with one more that stays in place if the path ends in a slash. -/
def trail (p : Path) : List String :=
  if endsInSlash p then steps p ++ ["."] else steps p

/-- What a path leads to. -/
def sight (tree : FileTree) (p : Path) : Except FileError Entry :=
  (tree.find p).map entry

section Sight

variable {tree tree' : FileTree} {p : Path}

theorem locate_eq_ok_iff {place : Place} :
    tree.locate p = .ok place ↔ p.text ≠ "" ∧ tree.walk [] (trail p) = .ok place := by
  unfold locate
  split
  · next empty => simp [empty]
  · next notEmpty => simp [notEmpty, trail]

theorem sight_of_locate_ok {place : Place} (h : tree.locate p = .ok place) :
    tree.sight p = (tree.entryAt place).elim (.error .notFound) .ok := by
  unfold sight find entryAt
  rw [h]
  cases hget : tree.get? place <;> simp [hget, bind, Except.bind, Except.map]

theorem sight_of_locate_error {error : FileError} (h : tree.locate p = .error error) :
    tree.sight p = .error error := by
  unfold sight find
  rw [h]
  rfl

theorem sight_eq_ok_iff {e : Entry} :
    tree.sight p = .ok e ↔ ∃ place, tree.locate p = .ok place ∧ tree.entryAt place = some e := by
  cases h : tree.locate p with
  | error error => simp [sight_of_locate_error h]
  | ok place =>
    rw [sight_of_locate_ok h]
    cases he : tree.entryAt place <;> simp [he]

theorem hasFolder_iff : tree.hasFolder p = true ↔ tree.sight p = .ok .folder := by
  unfold hasFolder sight
  cases tree.find p with
  | error error => simp [Except.map]
  | ok t => cases t <;> simp [Except.map, entry]

theorem read_eq_ok_iff {content : ByteArray} :
    tree.read p = .ok content ↔ tree.sight p = .ok (.file content) := by
  unfold read sight
  cases tree.find p with
  | error error => simp [Except.map, bind, Except.bind]
  | ok t => cases t <;> simp [Except.map, bind, Except.bind, entry]

theorem list_eq_ok_iff {entries : List (String × FileTree)} :
    tree.list p = .ok entries ↔ tree.find p = .ok (.folder entries) := by
  unfold list
  cases tree.find p with
  | error error => simp [bind, Except.bind]
  | ok t => cases t <;> simp [bind, Except.bind]

/-- Nothing but what stands where decides what a path leads to. -/
theorem sight_congr (same : ∀ q, tree'.entryAt q = tree.entryAt q) (p : Path) :
    tree'.sight p = tree.sight p := by
  have located : tree'.locate p = tree.locate p := by
    unfold locate
    rw [walk_congr same]
  cases h : tree.locate p with
  | error error => rw [sight_of_locate_error h, sight_of_locate_error (located.trans h)]
  | ok place => rw [sight_of_locate_ok h, sight_of_locate_ok (located.trans h), same]

theorem Grows.locate (grows : Grows tree tree') {place : Place} (h : tree.locate p = .ok place) :
    tree'.locate p = .ok place := by
  rw [locate_eq_ok_iff] at h ⊢
  exact ⟨h.1, grows.walk h.2⟩

end Sight

/-! ## Aiming at a place -/

/-- Something new at the path `p` goes into the folder at `place`, under the name `name`. -/
structure Aims (tree : FileTree) (p : Path) (place : Place) (name : String) : Prop where
  proper : isProperName name = true
  folder : tree.entryAt place = some .folder
  route : ∃ init, steps p = init ++ [name] ∧ tree.walk [] init = .ok place

/-- At `place` stands `e` now, and elsewhere all is as it was. -/
def Becomes (tree : FileTree) (place : Place) (e : Entry) (tree' : FileTree) : Prop :=
  ∀ q, tree'.entryAt q = if q = place then some e else tree.entryAt q

section Aims

variable {tree tree' : FileTree} {p : Path} {place : Place} {name : String}

theorem isProperName_iff : isProperName name = true ↔ name ≠ "." ∧ name ≠ ".." := by
  simp [isProperName]

theorem target_eq_ok {init : List String} (hsteps : steps p = init ++ [name])
    (hwalk : tree.walk [] init = .ok place) (folder : tree.entryAt place = some .folder) :
    tree.target p = .ok (place, name) := by
  obtain ⟨entries, hget⟩ := entryAt_eq_some_folder.1 folder
  unfold target
  simp [hsteps, hwalk, hget, bind, Except.bind]

/-- What a target is when it names an entry. -/
theorem Aims.of_target (h : tree.target p = .ok (place, name)) (proper : isProperName name = true) :
    Aims tree p place name := by
  unfold target at h
  split at h
  · split at h
    · cases h
    · -- the name of the top is a dot
      obtain ⟨-, rfl⟩ := Prod.mk.inj (Except.ok.inj h)
      exact absurd proper (by decide)
  · next last hlast =>
    obtain ⟨place', hwalk, h⟩ := bind_eq_ok_iff.1 h
    split at h
    · next entries hget =>
      obtain ⟨rfl, rfl⟩ := Prod.mk.inj (Except.ok.inj h)
      obtain ⟨init, hinit⟩ := List.getLast?_eq_some_iff.1 hlast
      rw [hinit, List.dropLast_concat] at hwalk
      exact ⟨proper, entryAt_eq_some_folder.2 ⟨entries, hget⟩, init, hinit, hwalk⟩
    · cases h
    · cases h

theorem Aims.target (h : Aims tree p place name) : tree.target p = .ok (place, name) := by
  obtain ⟨init, hsteps, hwalk⟩ := h.route
  exact target_eq_ok hsteps hwalk h.folder

theorem Aims.of_grows (h : Aims tree p place name) (grows : Grows tree tree') :
    Aims tree' p place name := by
  obtain ⟨init, hsteps, hwalk⟩ := h.route
  exact ⟨h.proper, grows.folder h.folder, init, hsteps, grows.walk hwalk⟩

theorem Aims.text_ne (h : Aims tree p place name) : p.text ≠ "" := by
  obtain ⟨init, hsteps, -⟩ := h.route
  intro empty
  have none : steps p = [] := by
    simp [steps, empty, Path.piecesOf, Path.splitSlash]
  simp [none] at hsteps

/-- Where a path aims can be told without a tree. -/
theorem Aims.resolve_eq (h : Aims tree p place name) : resolve [] (steps p) = place ++ [name] := by
  obtain ⟨init, hsteps, hwalk⟩ := h.route
  obtain ⟨notHere, notUp⟩ := isProperName_iff.1 h.proper
  rw [hsteps, resolve_append, ← walk_eq_resolve hwalk, resolve, if_neg notHere, if_neg notUp,
    resolve]

theorem Aims.walk_trail (h : Aims tree p place name) :
    tree.walk [] (trail p) = tree.walk place (if endsInSlash p then [name, "."] else [name]) := by
  obtain ⟨init, hsteps, hwalk⟩ := h.route
  unfold trail
  split
  · rw [hsteps, List.append_assoc, walk_append, hwalk]
    rfl
  · rw [hsteps, walk_append, hwalk]
    rfl

theorem walk_proper (folder : tree.entryAt place = some .folder) (proper : isProperName name = true)
    (rest : List String) :
    tree.walk place (name :: rest) =
      if (tree.entryAt (place ++ [name])).isSome then tree.walk (place ++ [name]) rest
      else .error .notFound := by
  obtain ⟨notHere, notUp⟩ := isProperName_iff.1 proper
  rw [walk_of_folder folder, if_neg notHere, if_neg notUp]

/-- A path leads to the place at which it aims, if there is something. -/
theorem Aims.locate {e : Entry} (h : Aims tree p place name)
    (there : tree.entryAt (place ++ [name]) = some e) (slash : endsInSlash p = true → e = .folder) :
    tree.locate p = .ok (place ++ [name]) := by
  refine locate_eq_ok_iff.2 ⟨h.text_ne, ?_⟩
  rw [h.walk_trail]
  split
  · next hslash =>
    rw [slash hslash] at there
    rw [walk_proper h.folder h.proper, there, Option.isSome_some, if_pos rfl, walk_of_folder there]
    rfl
  · rw [walk_proper h.folder h.proper, there, Option.isSome_some, if_pos rfl]
    rfl

/-- A path that leads somewhere aims there, or it ends in dots. -/
theorem exists_target_of_sight {e : Entry} (h : tree.sight p = .ok e) :
    ∃ place name, tree.target p = .ok (place, name) ∧
      (isProperName name = true → (tree.entryAt (place ++ [name])).isSome = true) := by
  obtain ⟨place, hlocate, -⟩ := sight_eq_ok_iff.1 h
  obtain ⟨text, hwalk⟩ := locate_eq_ok_iff.1 hlocate
  rcases List.eq_nil_or_concat (steps p) with hsteps | ⟨init, name, hsteps⟩
  · refine ⟨[], ".", ?_, fun proper => absurd proper (by decide)⟩
    unfold target
    simp [hsteps, text]
  · obtain ⟨rest, htrail⟩ : ∃ rest, trail p = init ++ name :: rest := by
      unfold trail
      split
      · exact ⟨["."], by simp [hsteps]⟩
      · exact ⟨[], by simp [hsteps]⟩
    rw [htrail, walk_append, bind_eq_ok_iff] at hwalk
    obtain ⟨place', hinit, hrest⟩ := hwalk
    have folder : tree.entryAt place' = some .folder := by
      cases he : tree.entryAt place' with
      | none => simp [walk_of_none he] at hrest
      | some e =>
        cases e with
        | file content => simp [walk_of_file he] at hrest
        | folder => rfl
    refine ⟨place', name, target_eq_ok (by simpa using hsteps) hinit folder, fun proper => ?_⟩
    rw [walk_proper folder proper] at hrest
    split at hrest
    · assumption
    · cases hrest

end Aims

end Calcsheet.FileTree
