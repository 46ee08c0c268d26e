import Calcsheet.FileTree
import Calcsheet.Proofs.Except
import Calcsheet.Proofs.Lists

/-!
# What stands where in a file tree

`entryAt` tells what stands at each place of a tree: nothing, a folder, or a file with its content.
Everything that is done to a tree is described by it. Going along a path looks at nothing else
(`walk_of_folder`), and what is put at a place shows there and nowhere else (`entryAt_put`).

A tree `Grows` when folders stay folders and files stay files, with new content perhaps. Paths that
lead somewhere lead to the same place in a tree that has grown (`Grows.walk`).
-/

namespace Calcsheet.FileTree

/-- What can be told of an entry without going into it. -/
inductive Entry where
  | file (content : ByteArray)
  | folder

/-- The entry that a tree is. -/
def entry : FileTree → Entry
  | .file content => .file content
  | .folder _ => .folder

/-- What stands at a place. -/
def entryAt (tree : FileTree) (place : Place) : Option Entry :=
  (tree.get? place).map entry

/-- The content of a file. -/
def Entry.content? : Entry → Option ByteArray
  | .file content => some content
  | .folder => none

/-- The content of the file at a place. -/
def fileAt (tree : FileTree) (place : Place) : Option ByteArray :=
  (tree.entryAt place).bind Entry.content?

/-! ## Places -/

theorem get?_nil (tree : FileTree) : tree.get? [] = some tree := by
  rw [get?]

theorem get?_file_cons (content : ByteArray) (name : String) (rest : Place) :
    (file content).get? (name :: rest) = none := by
  rw [get?]

theorem get?_folder_cons (entries : List (String × FileTree)) (name : String) (rest : Place) :
    (folder entries).get? (name :: rest) = (entries.lookup name).bind fun entry => entry.get? rest := by
  rw [get?]
  cases entries.lookup name <;> rfl

theorem get?_append (tree : FileTree) (place place' : Place) :
    tree.get? (place ++ place') = (tree.get? place).bind fun entry => entry.get? place' := by
  induction place generalizing tree with
  | nil => simp [get?_nil]
  | cons name rest ih =>
    cases tree with
    | file content => simp [get?_file_cons]
    | folder entries =>
      rw [List.cons_append, get?_folder_cons, get?_folder_cons]
      cases entries.lookup name with
      | none => rfl
      | some entry => exact ih entry

theorem entryAt_eq_some_folder {tree : FileTree} {place : Place} :
    tree.entryAt place = some .folder ↔ ∃ entries, tree.get? place = some (.folder entries) := by
  unfold entryAt
  cases tree.get? place with
  | none => simp
  | some t => cases t <;> simp [entry]

theorem entryAt_eq_some_file {tree : FileTree} {place : Place} {content : ByteArray} :
    tree.entryAt place = some (.file content) ↔ tree.get? place = some (.file content) := by
  unfold entryAt
  cases tree.get? place with
  | none => simp
  | some t => cases t <;> simp [entry]

theorem entryAt_eq_none {tree : FileTree} {place : Place} :
    tree.entryAt place = none ↔ tree.get? place = none :=
  Option.map_eq_none_iff

theorem fileAt_eq_some_iff {tree : FileTree} {place : Place} {content : ByteArray} :
    tree.fileAt place = some content ↔ tree.entryAt place = some (.file content) := by
  unfold fileAt
  cases tree.entryAt place with
  | none => simp
  | some e => cases e <;> simp [Entry.content?]

/-- Things stand in folders only. -/
theorem entryAt_of_append {tree : FileTree} {place rest : Place} {name : String} {e : Entry}
    (h : tree.entryAt (place ++ name :: rest) = some e) : tree.entryAt place = some .folder := by
  rw [entryAt, get?_append] at h
  cases ht : tree.get? place with
  | none => simp [ht] at h
  | some t =>
    cases t with
    | file content => simp [ht, get?_file_cons] at h
    | folder entries => exact entryAt_eq_some_folder.2 ⟨entries, ht⟩

theorem lookup_isSome_iff {tree : FileTree} {place : Place} {entries : List (String × FileTree)}
    (h : tree.get? place = some (.folder entries)) (name : String) :
    (entries.lookup name).isSome = (tree.entryAt (place ++ [name])).isSome := by
  rw [entryAt, get?_append, h, Option.bind_some, get?_folder_cons, Option.isSome_map]
  cases entries.lookup name <;> simp [get?_nil]

/-! ## Putting -/

theorem lookup_setEntry (name n : String) (new : FileTree) (entries : List (String × FileTree)) :
    (setEntry name new entries).lookup n = if n = name then some new else entries.lookup n := by
  induction entries with
  | nil => rw [setEntry, lookup_cons_eq]
  | cons e rest ih =>
    rw [setEntry, lookup_cons_eq]
    by_cases he : e.1 = name
    · rw [if_pos he, lookup_cons_eq, he]
      by_cases h : n = name
      · simp [h]
      · simp [h]
    · rw [if_neg he, lookup_cons_eq, ih]
      by_cases h : n = e.1
      · have : n ≠ name := fun hn => he (h ▸ hn)
        simp [h, he]
      · simp [h]

theorem put_folder_cons (new : FileTree) (name : String) (rest : Place)
    (entries : List (String × FileTree))
    (h : rest = [] ∨ (entries.lookup name).isSome = true) :
    put new (name :: rest) (.folder entries) =
      .folder (setEntry name (put new rest ((entries.lookup name).getD new)) entries) := by
  cases hn : entries.lookup name with
  | none =>
    obtain rfl : rest = [] := by simpa [hn] using h
    simp [put, hn]
  | some e => simp [put, hn]

/-- Nothing is put into a folder that is not there. -/
theorem put_of_missing (new : FileTree) {name : String} {rest : Place}
    {entries : List (String × FileTree)}
    (h : ¬ (rest = [] ∨ (entries.lookup name).isSome = true)) :
    put new (name :: rest) (.folder entries) = .folder entries := by
  obtain ⟨notNil, missing⟩ := not_or.1 h
  obtain ⟨n, rest, rfl⟩ := List.exists_cons_of_ne_nil notNil
  rw [Bool.not_eq_true, Option.isSome_eq_false_iff, Option.isNone_iff_eq_none] at missing
  simp [put, missing]

/-- What is put at a place shows there and nowhere else, if it is an empty thing that goes into a
folder and takes the place of no folder. -/
theorem entryAt_put {tree new : FileTree} {place : Place} {name : String}
    (leaf : ∀ n rest, new.get? (n :: rest) = none) (parent : tree.entryAt place = some .folder)
    (free : tree.entryAt (place ++ [name]) ≠ some .folder) (q : Place) :
    (put new (place ++ [name]) tree).entryAt q =
      if q = place ++ [name] then some new.entry else tree.entryAt q := by
  induction place generalizing tree q with
  | nil =>
    obtain ⟨entries, htree⟩ := entryAt_eq_some_folder.1 parent
    obtain rfl : tree = .folder entries := by simpa [get?_nil] using htree
    rw [List.nil_append, put_folder_cons _ _ _ _ (.inl rfl), put]
    cases q with
    | nil => simp [entryAt, get?_nil, entry]
    | cons n rest =>
      rw [entryAt, get?_folder_cons, lookup_setEntry, entryAt, get?_folder_cons]
      by_cases hn : n = name
      · rw [if_pos hn, hn]
        cases rest with
        | nil => simp [get?_nil]
        | cons m rest =>
          -- nothing was below a place that held no folder
          have none : (Option.bind (entries.lookup name) fun e => e.get? (m :: rest)) = none := by
            cases he : entries.lookup name with
            | none => rfl
            | some e =>
              cases e with
              | file content => exact get?_file_cons content m rest
              | folder inner =>
                refine absurd (entryAt_eq_some_folder.2 ⟨inner, ?_⟩) free
                rw [List.nil_append, get?_folder_cons, he, Option.bind_some, get?_nil]
          rw [none, Option.bind_some, leaf, if_neg (by simp)]
      · rw [if_neg hn, if_neg (by simp [hn])]
  | cons m place ih =>
    cases tree with
    | file content => simp [entryAt, get?_file_cons] at parent
    | folder entries =>
      cases he : entries.lookup m with
      | none => simp [entryAt, get?_folder_cons, he] at parent
      | some e =>
        have inner (r : Place) : (folder entries).entryAt (m :: r) = e.entryAt r := by
          rw [entryAt, get?_folder_cons, he, Option.bind_some, entryAt]
        rw [List.cons_append, inner] at free
        rw [inner] at parent
        rw [List.cons_append, put_folder_cons _ _ _ _ (.inr (by simp [he])), he, Option.getD_some]
        cases q with
        | nil => simp [entryAt, get?_nil, entry]
        | cons n rest =>
          rw [entryAt, get?_folder_cons, lookup_setEntry]
          by_cases hn : n = m
          · rw [if_pos hn, hn, Option.bind_some, ← entryAt, ih parent free, inner]
            simp
          · rw [if_neg hn, if_neg (by simp [hn]), entryAt, get?_folder_cons]

/-- What is put below a folder is put into the folder. -/
theorem get?_put_append {tree old : FileTree} {place : Place} (h : tree.get? place = some old)
    (new : FileTree) (rest : Place) :
    (put new (place ++ rest) tree).get? place = some (put new rest old) := by
  induction place generalizing tree with
  | nil =>
    obtain rfl : tree = old := by simpa [get?_nil] using h
    rw [List.nil_append, get?_nil]
  | cons name place ih =>
    cases tree with
    | file content => simp [get?_file_cons] at h
    | folder entries =>
      rw [get?_folder_cons, Option.bind_eq_some_iff] at h
      obtain ⟨e, he, h⟩ := h
      rw [List.cons_append, put_folder_cons _ _ _ _ (.inr (by simp [he])), he, Option.getD_some,
        get?_folder_cons, lookup_setEntry, if_pos rfl, Option.bind_some, ih h]

/-- What is put elsewhere leaves a place as it is. -/
theorem get?_put_of_apart {tree old : FileTree} {place q : Place} (h : tree.get? place = some old)
    (apart : ¬ place <+: q) (notFolder : tree.entryAt q ≠ some .folder) (new : FileTree) :
    (put new q tree).get? place = some old := by
  induction place generalizing tree q with
  | nil => exact absurd List.nil_prefix apart
  | cons name place ih =>
    cases tree with
    | file content => simp [get?_file_cons] at h
    | folder entries =>
      cases q with
      | nil => simp [entryAt, get?_nil, entry] at notFolder
      | cons n q =>
        have inner : (folder entries).entryAt (n :: q) =
            (entries.lookup n).bind fun e => e.entryAt q := by
          rw [entryAt, get?_folder_cons]
          cases entries.lookup n <;> rfl
        rw [inner] at notFolder
        rw [get?_folder_cons] at h
        by_cases into : q = [] ∨ (entries.lookup n).isSome = true
        · rw [put_folder_cons _ _ _ _ into, get?_folder_cons, lookup_setEntry]
          split
          · next same =>
            subst same
            obtain ⟨e, he, h⟩ := Option.bind_eq_some_iff.1 h
            rw [he, Option.bind_some] at notFolder
            rw [he, Option.bind_some, Option.getD_some]
            refine ih h (fun below => apart ?_) notFolder
            exact List.cons_prefix_cons.2 ⟨rfl, below⟩
          · exact h
        · rw [put_of_missing new into, get?_folder_cons, h]

/-! ## Going along a path -/

section Walk

variable {tree : FileTree} {place : Place}

theorem walk_of_none (h : tree.entryAt place = none) (step : String) (rest : List String) :
    tree.walk place (step :: rest) = .error .notFound := by
  rw [walk, entryAt_eq_none.1 h]

theorem walk_of_file {content : ByteArray} (h : tree.entryAt place = some (.file content))
    (step : String) (rest : List String) :
    tree.walk place (step :: rest) = .error .notFolder := by
  rw [walk, entryAt_eq_some_file.1 h]

theorem walk_of_folder (h : tree.entryAt place = some .folder) (step : String) (rest : List String) :
    tree.walk place (step :: rest) =
      if step = "." then tree.walk place rest
      else if step = ".." then tree.walk place.dropLast rest
      else if (tree.entryAt (place ++ [step])).isSome then tree.walk (place ++ [step]) rest
      else .error .notFound := by
  obtain ⟨entries, hget⟩ := entryAt_eq_some_folder.1 h
  rw [walk, hget]
  simp only [lookup_isSome_iff hget]

theorem walk_append (tree : FileTree) (place : Place) (steps steps' : List String) :
    tree.walk place (steps ++ steps') =
      tree.walk place steps >>= fun place => tree.walk place steps' := by
  induction steps generalizing place with
  | nil => rfl
  | cons step rest ih =>
    rw [List.cons_append]
    cases h : tree.entryAt place with
    | none => rw [walk_of_none h, walk_of_none h]; rfl
    | some e =>
      cases e with
      | file content => rw [walk_of_file h, walk_of_file h]; rfl
      | folder =>
        rw [walk_of_folder h, walk_of_folder h, ih, ih, ih]
        split
        · rfl
        · split
          · rfl
          · split <;> rfl

/-- The place after some steps from a place, as far as it can be told without a tree. -/
def resolve (place : Place) : List String → Place
  | [] => place
  | step :: rest =>
    if step = "." then resolve place rest
    else if step = ".." then resolve place.dropLast rest
    else resolve (place ++ [step]) rest

theorem resolve_append (place : Place) (steps steps' : List String) :
    resolve place (steps ++ steps') = resolve (resolve place steps) steps' := by
  induction steps generalizing place with
  | nil => rfl
  | cons step rest ih =>
    rw [List.cons_append, resolve, resolve, ih, ih, ih]
    split
    · rfl
    · split <;> rfl

theorem resolve_of_noUp {steps : List String} (noUp : ".." ∉ steps) (place : Place) :
    resolve place steps = place ++ steps.filter fun step => step != "." := by
  induction steps generalizing place with
  | nil => simp [resolve]
  | cons step rest ih =>
    obtain ⟨notUp, noUp⟩ : step ≠ ".." ∧ ".." ∉ rest := by
      simpa [eq_comm, List.mem_cons, not_or] using noUp
    rw [resolve, if_neg notUp, ih noUp, ih noUp]
    split
    · next here => simp [here]
    · next notHere => simp [notHere]

/-- A tree decides whether a path leads somewhere, but not where. -/
theorem walk_eq_resolve {place' : Place} {steps : List String}
    (h : tree.walk place steps = .ok place') : place' = resolve place steps := by
  induction steps generalizing place with
  | nil => exact (Except.ok.inj h).symm
  | cons step rest ih =>
    cases he : tree.entryAt place with
    | none => simp [walk_of_none he] at h
    | some e =>
      cases e with
      | file content => simp [walk_of_file he] at h
      | folder =>
        rw [walk_of_folder he] at h
        rw [resolve]
        split at h
        · next here => rw [if_pos here, ih h]
        · next notHere =>
          rw [if_neg notHere]
          split at h
          · next up => rw [if_pos up, ih h]
          · next notUp =>
            rw [if_neg notUp]
            split at h
            · exact ih h
            · cases h

/-- Nothing but what stands where decides where a path leads. -/
theorem walk_congr {tree' : FileTree} (same : ∀ q, tree'.entryAt q = tree.entryAt q) (place : Place)
    (steps : List String) : tree'.walk place steps = tree.walk place steps := by
  induction steps generalizing place with
  | nil => rfl
  | cons step rest ih =>
    cases h : tree.entryAt place with
    | none => rw [walk_of_none h, walk_of_none (by rw [same, h])]
    | some e =>
      cases e with
      | file content => rw [walk_of_file h, walk_of_file (by rw [same, h])]
      | folder => rw [walk_of_folder h, walk_of_folder (by rw [same, h]), ih, ih, ih, same]

end Walk

/-! ## Growing -/

/-- Folders stay folders and files stay files. -/
structure Grows (tree tree' : FileTree) : Prop where
  folder {place : Place} : tree.entryAt place = some .folder → tree'.entryAt place = some .folder
  file {place : Place} {content : ByteArray} : tree.entryAt place = some (.file content) →
    ∃ content', tree'.entryAt place = some (.file content')

namespace Grows

variable {tree tree' tree'' : FileTree}

theorem refl (tree : FileTree) : Grows tree tree :=
  ⟨id, fun h => ⟨_, h⟩⟩

theorem trans (first : Grows tree tree') (second : Grows tree' tree'') : Grows tree tree'' := by
  refine ⟨fun h => second.folder (first.folder h), fun h => ?_⟩
  obtain ⟨content, h⟩ := first.file h
  exact second.file h

theorem isSome (grows : Grows tree tree') {place : Place} (h : (tree.entryAt place).isSome = true) :
    (tree'.entryAt place).isSome = true := by
  obtain ⟨e, he⟩ := Option.isSome_iff_exists.1 h
  cases e with
  | file content =>
    obtain ⟨content', h'⟩ := grows.file he
    rw [h', Option.isSome_some]
  | folder => rw [grows.folder he, Option.isSome_some]

theorem fileAt (grows : Grows tree tree') {place : Place} {content : ByteArray}
    (h : tree.fileAt place = some content) : ∃ content', tree'.fileAt place = some content' := by
  obtain ⟨content', h'⟩ := grows.file (fileAt_eq_some_iff.1 h)
  exact ⟨content', fileAt_eq_some_iff.2 h'⟩

/-- A path that leads somewhere leads there in a tree that has grown. -/
theorem walk (grows : Grows tree tree') {place place' : Place} {steps : List String}
    (h : tree.walk place steps = .ok place') : tree'.walk place steps = .ok place' := by
  induction steps generalizing place with
  | nil => exact h
  | cons step rest ih =>
    cases he : tree.entryAt place with
    | none => simp [walk_of_none he] at h
    | some e =>
      cases e with
      | file content => simp [walk_of_file he] at h
      | folder =>
        rw [walk_of_folder he] at h
        rw [walk_of_folder (grows.folder he)]
        split at h
        · next here => rw [if_pos here, ih h]
        · next notHere =>
          rw [if_neg notHere]
          split at h
          · next up => rw [if_pos up, ih h]
          · next notUp =>
            rw [if_neg notUp]
            split at h
            · next some => rw [if_pos (grows.isSome some), ih h]
            · cases h

end Grows

end Calcsheet.FileTree
