import Calcsheet.Proofs.FileTree.Action
import Calcsheet.Proofs.Path

/-!
# Going down from a folder

A path that only goes down by names from a folder leads to the place below that folder that has the
same names, whatever dots and slashes stand in between (`Descends.locate_eq`). Something new at such
a path goes there and nowhere else (`Descends.aims_eq`).
-/

namespace Calcsheet.FileTree

open Calcsheet.Path

/-! ## The steps of joined paths -/

theorem steps_eq (p : Path) : steps p = (piecesOf p.text.toList).filter fun piece => piece != "" :=
  rfl

theorem piecesOf_nil : piecesOf [] = [""] :=
  rfl

theorem steps_join {p q : Path} (relative : q.isAbsolute = false) :
    steps (p.join q) = steps p ++ steps q := by
  rw [steps_eq, steps_eq, steps_eq]
  by_cases empty : p.text = ""
  · simp [join, relative, empty, piecesOf_nil]
  · by_cases slash : p.text.toList.getLast? = some '/'
    · have join : (p.join q).text.toList = p.text.toList ++ q.text.toList := by
        simp [join, relative, slash]
      obtain ⟨t, ht⟩ : ∃ t, p.text.toList = t ++ ['/'] := List.getLast?_eq_some_iff.1 slash
      rw [join, ht, List.append_assoc, List.cons_append, List.nil_append, piecesOf_append,
        piecesOf_append, piecesOf_nil]
      simp
    · have join : (p.join q).text.toList = p.text.toList ++ '/' :: q.text.toList := by
        simp [join, relative, slash, empty]
      rw [join, piecesOf_append, List.filter_append]

theorem steps_join_name {name : String} (p : Path) (notEmpty : name ≠ "")
    (noSlash : '/' ∉ name.toList) : steps (p.join ⟨name⟩) = steps p ++ [name] := by
  rw [steps_join (isAbsolute_of_not_mem noSlash), steps_eq ⟨name⟩, piecesOf_of_not_mem noSlash]
  simp [notEmpty]

/-- The last step of a path ends as the path does, up to a slash. -/
theorem exists_last_step {p : Path} {s t : List Char} (h : p.text.toList = s ++ t) (notNil : t ≠ [])
    (noSlash : '/' ∉ t) : ∃ init last, steps p = init ++ [last] ∧ t <:+ last.toList := by
  obtain ⟨init, piece, hpieces⟩ : ∃ init piece, splitSlash (s ++ t) = init ++ [piece ++ t] := by
    clear h
    induction s with
    | nil => exact ⟨[], [], splitSlash_of_not_mem noSlash⟩
    | cons c s ih =>
      obtain ⟨init, piece, hpieces⟩ := ih
      rw [List.cons_append, splitSlash, hpieces]
      split
      · exact ⟨[] :: init, piece, rfl⟩
      · cases init with
        | nil => exact ⟨[], c :: piece, rfl⟩
        | cons first init => exact ⟨(c :: first) :: init, piece, rfl⟩
  have notEmpty : String.ofList (piece ++ t) ≠ "" := by
    simp [← String.toList_inj, notNil]
  refine ⟨(init.map String.ofList).filter fun piece => piece != "", String.ofList (piece ++ t), ?_,
    piece, by simp⟩
  rw [steps_eq, h, piecesOf, hpieces, List.map_append, List.filter_append]
  simpa using notEmpty

/-- What stands in a folder under a name that a path gives has such a name as entries can have. -/
theorem Aims.isName {tree : FileTree} {p : Path} {place : Place} {name : String}
    (h : Aims tree p place name) : IsName name := by
  obtain ⟨init, hsteps, -⟩ := h.route
  obtain ⟨notHere, notUp⟩ := isProperName_iff.1 h.proper
  have mem : name ∈ steps p := by
    rw [hsteps]
    simp
  obtain ⟨piece, notEmpty⟩ := List.mem_filter.1 mem
  exact ⟨by simpa using notEmpty, notHere, notUp, slash_not_mem_of_mem_piecesOf piece⟩

/-- The steps without dots are the pieces that count. -/
theorem filter_steps (p : Path) :
    ((steps p).filter fun step => step != ".") = solid (piecesOf p.text.toList) := by
  rw [steps_eq, List.filter_filter, solid]
  congr 1
  funext piece
  rw [Bool.eq_iff_iff]
  simp [isVoid, and_comm]

theorem up_not_mem_steps {p : Path} (h : ".." ∉ solid (piecesOf p.text.toList)) :
    ".." ∉ steps p := by
  rw [← filter_steps, List.mem_filter] at h
  exact fun up => h ⟨up, by decide⟩

theorem endsInSlash_join_name {name : String} (p : Path) (h : IsName name) :
    endsInSlash (p.join ⟨name⟩) = false := by
  obtain ⟨t, c, hname⟩ : ∃ t c, name.toList = t ++ [c] := by
    rcases List.eq_nil_or_concat name.toList with nil | ⟨t, c, concat⟩
    · exact absurd (String.toList_eq_nil_iff.1 nil) h.notEmpty
    · exact ⟨t, c, by simpa using concat⟩
  have notSlash : c ≠ '/' := by
    rintro rfl
    exact h.noSlash (by simp [hname])
  have last : (p.join ⟨name⟩).text.toList.getLast? = some c := by
    unfold join
    rw [h.isAbsolute]
    split
    · contradiction
    · split <;> simp [hname, List.getLast?_cons]
  simp [endsInSlash, last, notSlash]

/-! ## Walking without going up -/

section Walk

variable {tree : FileTree} {place place' : Place} {more : List String}

theorem walk_down (noUp : ".." ∉ more) (h : tree.walk place more = .ok place') :
    place' = place ++ more.filter fun step => step != "." := by
  rw [walk_eq_resolve h, resolve_of_noUp noUp]

theorem walk_to_folder (noUp : ".." ∉ more)
    (there : tree.entryAt (place ++ more.filter fun step => step != ".") = some .folder) :
    tree.walk place more = .ok (place ++ more.filter fun step => step != ".") := by
  induction more generalizing place with
  | nil => simp [walk]
  | cons step rest ih =>
    obtain ⟨notUp, noUp⟩ : step ≠ ".." ∧ ".." ∉ rest := by
      simpa [eq_comm, List.mem_cons, not_or] using noUp
    by_cases here : step = "."
    · have skip : ((step :: rest).filter fun step => step != ".") =
          rest.filter fun step => step != "." := by simp [here]
      rw [skip] at there ⊢
      have folder : tree.entryAt place = some .folder := by
        cases names : rest.filter fun step => step != "." with
        | nil => simpa [names] using there
        | cons name names' =>
          rw [names] at there
          exact entryAt_of_append there
      rw [walk_of_folder folder, if_pos here, ih noUp there]
    · have keep : ((step :: rest).filter fun step => step != ".") =
          step :: rest.filter fun step => step != "." := by simp [here]
      rw [keep, List.append_cons] at there ⊢
      have folder : tree.entryAt place = some .folder := by
        rw [← List.append_cons] at there
        exact entryAt_of_append there
      have next : (tree.entryAt (place ++ [step])).isSome = true := by
        cases names : rest.filter fun step => step != "." with
        | nil =>
          rw [names, List.append_nil] at there
          rw [there, Option.isSome_some]
        | cons name names' =>
          rw [names] at there
          rw [entryAt_of_append there, Option.isSome_some]
      rw [walk_of_folder folder, if_neg here, if_neg notUp, if_pos next, ih noUp there]

end Walk

/-! ## Paths that go down -/

/-- The path `base` leads to the folder at `place`. -/
structure StandsAt (tree : FileTree) (base : Path) (place : Place) : Prop where
  walk : tree.walk [] (steps base) = .ok place
  folder : tree.entryAt place = some .folder

/-- The path `p` goes on from `base` and down by the names, with dots in between perhaps. -/
structure Descends (base : Path) (names : Place) (p : Path) : Prop where
  notEmpty : p.text ≠ ""
  way : ∃ more, steps p = steps base ++ more ∧ ".." ∉ more ∧
    (more.filter fun step => step != ".") = names

section Descends

variable {tree tree' : FileTree} {base p q : Path} {place : Place} {names : Place} {name : String}

theorem StandsAt.of_grows (h : StandsAt tree base place) (grows : Grows tree tree') :
    StandsAt tree' base place :=
  ⟨grows.walk h.walk, grows.folder h.folder⟩

theorem exists_standsAt {entries : List (String × FileTree)} (h : tree.list base = .ok entries) :
    base.text ≠ "" ∧ ∃ place, tree.get? place = some (.folder entries) ∧
      StandsAt tree base place := by
  obtain ⟨place, hlocate, h⟩ := bind_eq_ok_iff.1 (list_eq_ok_iff.1 h)
  have hget : tree.get? place = some (.folder entries) := by
    cases hget : tree.get? place with
    | none => simp [hget] at h
    | some t => simpa [hget] using h
  have folder := entryAt_eq_some_folder.2 ⟨entries, hget⟩
  obtain ⟨notEmpty, hwalk⟩ := locate_eq_ok_iff.1 hlocate
  refine ⟨notEmpty, place, hget, ?_, folder⟩
  unfold trail at hwalk
  split at hwalk
  · rw [walk_append, bind_eq_ok_iff] at hwalk
    obtain ⟨place', hwalk, last⟩ := hwalk
    rw [hwalk, walk_down (by decide) last]
    simp
  · exact hwalk

theorem Descends.refl (notEmpty : base.text ≠ "") : Descends base [] base :=
  ⟨notEmpty, [], by simp⟩

theorem Descends.join (h : Descends base names p) (relative : q.isAbsolute = false)
    (noUp : ".." ∉ solid (piecesOf q.text.toList)) :
    Descends base (names ++ solid (piecesOf q.text.toList)) (p.join q) := by
  obtain ⟨more, hsteps, hup, hnames⟩ := h.way
  refine ⟨text_join_ne_left h.notEmpty, more ++ steps q, ?_, ?_, ?_⟩
  · rw [steps_join relative, hsteps, List.append_assoc]
  · simp [hup, up_not_mem_steps noUp]
  · rw [List.filter_append, hnames, filter_steps]

theorem Descends.join_name (h : Descends base names p) (isName : IsName name) :
    Descends base (names ++ [name]) (p.join ⟨name⟩) := by
  have := h.join isName.isAbsolute (by simp [solid_name isName, Ne.symm isName.notUp])
  rwa [solid_name isName] at this

theorem Descends.under {more : List String} (h : Descends base names p)
    (isName : ∀ name ∈ more, IsName name) : Descends base (names ++ more) (p.under more) := by
  induction more generalizing p names with
  | nil => simpa [Path.under] using h
  | cons name rest ih =>
    rw [List.append_cons, under_cons]
    exact ih (h.join_name (isName name (by simp))) fun n hn => isName n (by simp [hn])

theorem Descends.walk_eq {place' : Place} (h : Descends base names p)
    (stands : StandsAt tree base place) (hwalk : tree.walk [] (steps p) = .ok place') :
    place' = place ++ names := by
  obtain ⟨more, hsteps, noUp, hnames⟩ := h.way
  rw [hsteps, walk_append, stands.walk] at hwalk
  rw [← hnames]
  exact walk_down noUp hwalk

theorem Descends.walk_to (h : Descends base names p) (stands : StandsAt tree base place)
    (there : tree.entryAt (place ++ names) = some .folder) :
    tree.walk [] (steps p) = .ok (place ++ names) := by
  obtain ⟨more, hsteps, noUp, hnames⟩ := h.way
  rw [hsteps, walk_append, stands.walk]
  rw [← hnames] at there ⊢
  exact walk_to_folder noUp there

theorem Descends.locate_folder (h : Descends base names p) (stands : StandsAt tree base place)
    (there : tree.entryAt (place ++ names) = some .folder) :
    tree.locate p = .ok (place ++ names) := by
  refine locate_eq_ok_iff.2 ⟨h.notEmpty, ?_⟩
  unfold trail
  split
  · rw [walk_append, h.walk_to stands there]
    exact (walk_of_folder there _ _).trans (if_pos rfl)
  · exact h.walk_to stands there

theorem Descends.sight_folder (h : Descends base names p) (stands : StandsAt tree base place)
    (there : tree.entryAt (place ++ names) = some .folder) : tree.sight p = .ok .folder :=
  sight_eq_ok_iff.2 ⟨place ++ names, h.locate_folder stands there, there⟩

theorem StandsAt.list_eq {entries : List (String × FileTree)} (stands : StandsAt tree base place)
    (notEmpty : base.text ≠ "") (hget : tree.get? place = some (.folder entries)) :
    tree.list base = .ok entries := by
  have located := (Descends.refl notEmpty).locate_folder stands (by simpa using stands.folder)
  rw [List.append_nil] at located
  rw [list_eq_ok_iff, find, located]
  simp [bind, Except.bind, hget]

/-- Something new below a path that goes down goes into the folder at the same names. -/
theorem Descends.aims_eq {folder : Place} {n : String} (h : Descends base names p)
    (stands : StandsAt tree base place) (notEmpty : name ≠ "") (noSlash : '/' ∉ name.toList)
    (aims : Aims tree (p.join ⟨name⟩) folder n) : folder = place ++ names ∧ n = name := by
  obtain ⟨init, hsteps, hwalk⟩ := aims.route
  rw [steps_join_name p notEmpty noSlash] at hsteps
  obtain ⟨rfl, hn⟩ := List.append_inj' hsteps rfl
  exact ⟨h.walk_eq stands hwalk, (List.cons.inj hn).1.symm⟩

theorem Descends.aims (h : Descends base names p) (stands : StandsAt tree base place)
    (isName : IsName name) (there : tree.entryAt (place ++ names) = some .folder) :
    Aims tree (p.join ⟨name⟩) (place ++ names) name :=
  ⟨isProperName_iff.2 ⟨isName.notHere, isName.notUp⟩, there, steps p,
    steps_join_name p isName.notEmpty isName.noSlash, h.walk_to stands there⟩

theorem Descends.locate_join_name {e : Entry} (h : Descends base names p)
    (stands : StandsAt tree base place) (isName : IsName name)
    (there : tree.entryAt (place ++ names ++ [name]) = some e) :
    tree.locate (p.join ⟨name⟩) = .ok (place ++ names ++ [name]) :=
  (h.aims stands isName (entryAt_of_append there)).locate there
    (by simp [endsInSlash_join_name p isName])

/-- The content of the file at the names is what reading the path gives. -/
theorem Descends.read_join_name_iff {content : ByteArray} (h : Descends base names p)
    (stands : StandsAt tree base place) (isName : IsName name) :
    tree.read (p.join ⟨name⟩) = .ok content ↔
      tree.fileAt (place ++ names ++ [name]) = some content := by
  rw [read_eq_ok_iff, fileAt_eq_some_iff]
  constructor
  · intro hsight
    obtain ⟨place', hlocate, he⟩ := sight_eq_ok_iff.1 hsight
    have hwalk := (locate_eq_ok_iff.1 hlocate).2
    rw [trail, endsInSlash_join_name p isName, if_neg (by decide)] at hwalk
    rw [List.append_assoc, ← (h.join_name isName).walk_eq stands hwalk, he]
  · intro he
    exact sight_eq_ok_iff.2 ⟨_, h.locate_join_name stands isName he, he⟩

end Descends

end Calcsheet.FileTree
