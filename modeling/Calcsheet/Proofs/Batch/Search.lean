import Calcsheet.Proofs.Batch.Inputs
import Mathlib.Data.List.Lex

/-!
# What a search finds, and in which order

A search finds the worksheets below the root to which it comes without going through the folder
that is left out, and nothing else (`mem_found_iff`). They come in the order of their paths by
components, though each folder is put in order by itself (`pairwise_found`). In this order a folder
`a` with all that is in it comes before `a-b` and `a.xmcd`, which is not the order of the texts.
-/

namespace Calcsheet

open FileTree Calcsheet.Path

namespace Path

/-! ## The order of paths -/

/-- The kinds of components in order. -/
def Component.rank : Component → Nat
  | .top => 0
  | .here => 1
  | .up => 2
  | .named _ => 3

/-- The order of components: by their kinds, and names as texts. -/
def Component.Before : Component → Component → Prop
  | .named name, .named name' => name < name'
  | c, c' => c.rank < c'.rank

/-- The order of paths, component by component. A folder comes before all that is in it. -/
def Before (p q : Path) : Prop :=
  List.Lex Component.Before p.components q.components

theorem Component.not_before_self (c : Component) : ¬ c.Before c := by
  cases c with
  | named name => exact String.lt_irrefl name
  | top | here | up => exact Nat.lt_irrefl _

theorem not_before_of_components_eq {p q : Path} (h : p.components = q.components) :
    ¬ p.Before q := by
  rw [Before, h]
  exact List.lex_irrefl Component.not_before_self _

/-- Paths that part at two names are in the order of the names. -/
theorem before_of_lt {p q : Path} {cs ps qs : List Component} {name name' : String}
    (hp : p.components = cs ++ .named name :: ps) (hq : q.components = cs ++ .named name' :: qs)
    (lt : name < name') : p.Before q := by
  have names : (Component.named name).Before (.named name') := lt
  rw [Before, hp, hq]
  exact List.Lex.append_left Component.Before (.rel names) cs

theorem under_inj {root : Path} {names names' : List String} (notEmpty : root.text ≠ "")
    (h : ∀ name ∈ names, IsName name) (h' : ∀ name ∈ names', IsName name)
    (same : (root.under names).components = (root.under names').components) : names = names' := by
  rw [components_under notEmpty h, components_under notEmpty h'] at same
  exact map_named_inj (List.append_cancel_left same)

end Path

theorem FileTree.WellNamed.isName {tree entry : FileTree} {place : Place} (named : tree.WellNamed)
    (h : tree.get? place = some entry) : ∀ name ∈ place, IsName name := by
  induction place generalizing tree with
  | nil => simp
  | cons name rest ih =>
    cases named with
    | file content => simp [get?_file_cons] at h
    | @folder entries names inner =>
      rw [get?_folder_cons, Option.bind_eq_some_iff] at h
      obtain ⟨t, hlookup, h⟩ := h
      have mem := mem_of_lookup hlookup
      exact List.forall_mem_cons.2 ⟨names (name, t) mem, ih (inner (name, t) mem) h⟩

namespace Batch

/-! ## Worksheets by their names -/

/-- The name of a worksheet: something, a dot, and `xmcd` in any case. -/
def IsWorksheetName (name : String) : Prop :=
  ∃ stem extension, stem ≠ "" ∧ name = stem ++ "." ++ extension ∧
    extension.map Char.toLower = "xmcd"

theorem isWorksheet_iff {w : Path} {cs : List Component} {name : String}
    (h : w.components = cs ++ [.named name]) : isWorksheet w = true ↔ IsWorksheetName name := by
  constructor
  · intro worksheet
    obtain ⟨extension, hname, notEmpty, lower⟩ := exists_name_eq_of_isWorksheet h worksheet
    exact ⟨w.stem, extension, notEmpty, hname, lower⟩
  · rintro ⟨stem, extension, notEmpty, rfl, lower⟩
    have noDot : '.' ∉ extension.toList := by
      intro dot
      have : '.' ∈ (extension.map Char.toLower).toList := by
        rw [String.toList_map]
        exact List.mem_map.2 ⟨'.', dot, rfl⟩
      rw [lower] at this
      exact absurd this (by decide)
    rw [isWorksheet, extension?, fileName?_of_components h, Option.bind_some,
      cutName_append notEmpty noDot]
    simpa using lower

/-! ## What is found -/

section Found

variable {skip path w : Path} {tree : FileTree} {entries : List (String × FileTree)}

theorem FoundAt.inner {name : String} {rest : List String}
    (h : FoundAt skip path (name :: rest) w) :
    FoundAt skip (path.join ⟨name⟩) rest w :=
  ⟨h.path_eq, fun n hn => h.isName n (List.mem_cons_of_mem _ hn), h.isWorksheet,
    fun above below split notNil => h.apart (name :: above) below (by rw [split]; rfl) notNil⟩

theorem mem_found_of_foundAt {names : List String} {content : ByteArray}
    (hget : tree.get? names = some (.file content)) (h : FoundAt skip path names w) :
    w ∈ found skip path tree := by
  induction names generalizing tree path with
  | nil =>
    obtain rfl : tree = .file content := by simpa [get?_nil] using hget
    obtain rfl : w = path := h.path_eq
    rw [found, if_pos h.isWorksheet]
    exact List.mem_singleton_self w
  | cons name rest ih =>
    cases tree with
    | file content => simp [get?_file_cons] at hget
    | folder entries =>
      rw [get?_folder_cons, Option.bind_eq_some_iff] at hget
      obtain ⟨entry, hlookup, hget⟩ := hget
      have searched : ¬ path.sameAs skip = true := by
        simpa [Path.under] using h.apart [] (name :: rest) rfl (by simp)
      rw [found, if_neg searched]
      exact mem_inOrder_foundIn.2 ⟨(name, entry), mem_of_lookup hlookup, ih hget h.inner⟩

/-- A search finds exactly the worksheets to which it comes without going through the folder that
is left out. -/
theorem mem_found_iff (named : tree.WellNamed) (distinct : tree.Distinct)
    (notEmpty : path.text ≠ "") :
    w ∈ found skip path tree ↔
      ∃ names content, tree.get? names = some (.file content) ∧ FoundAt skip path names w := by
  constructor
  · intro h
    obtain ⟨names, content, hpath, isName, hget⟩ := exists_file_of_mem_found named distinct h
    obtain ⟨names', hfound⟩ := exists_foundAt named h
    obtain rfl : names = names' :=
      under_inj notEmpty isName hfound.isName (by rw [← hpath, hfound.path_eq])
    exact ⟨names, content, hget, hfound⟩
  · rintro ⟨names, content, hget, hfound⟩
    exact mem_found_of_foundAt hget hfound

/-! ## In which order -/

theorem exists_components_of_mem_found {name : String} (named : tree.WellNamed)
    (notEmpty : path.text ≠ "") (isName : IsName name)
    (h : w ∈ found skip (path.join ⟨name⟩) tree) :
    ∃ cs, w.components = path.components ++ .named name :: cs := by
  obtain ⟨names, hfound⟩ := exists_foundAt named h
  refine ⟨names.map .named, ?_⟩
  rw [hfound.path_eq, components_under (text_join_ne_left notEmpty) hfound.isName,
    components_join_name notEmpty isName, List.append_assoc, List.singleton_append]

/-- What is found in the entries of a folder is in order, if it is in each of them. -/
theorem pairwise_inOrder (isNames : ∀ e ∈ entries, IsName e.1)
    (named : ∀ e ∈ entries, e.2.WellNamed) (distinct : (entries.map Prod.fst).Nodup)
    (notEmpty : path.text ≠ "")
    (inner : ∀ e ∈ entries, (found skip (path.join ⟨e.1⟩) e.2).Pairwise Before) :
    (inOrder (foundIn skip path entries)).Pairwise Before := by
  have keys : ((foundIn skip path entries).map Prod.fst).Nodup := by
    rwa [foundIn_eq, List.map_map]
  have origin {f : String × List Path} (hf : f ∈ Text.sortOn Prod.fst (foundIn skip path entries)) :
      ∃ e ∈ entries, (e.1, found skip (path.join ⟨e.1⟩) e.2) = f := by
    rw [Text.mem_sortOn, foundIn_eq] at hf
    exact List.mem_map.1 hf
  rw [inOrder, List.pairwise_flatMap]
  refine ⟨fun f hf => ?_, (Text.pairwise_lt_sortOn keys).imp_of_mem fun {f f'} hf hf' lt => ?_⟩
  · obtain ⟨e, he, rfl⟩ := origin hf
    exact inner e he
  · obtain ⟨e, he, rfl⟩ := origin hf
    obtain ⟨e', he', rfl⟩ := origin hf'
    -- the paths part at the names of the two entries
    intro w hw w' hw'
    obtain ⟨cs, hcs⟩ := exists_components_of_mem_found (named e he) notEmpty (isNames e he) hw
    obtain ⟨cs', hcs'⟩ :=
      exists_components_of_mem_found (named e' he') notEmpty (isNames e' he') hw'
    exact before_of_lt hcs hcs' lt

theorem pairwise_found (named : tree.WellNamed) (distinct : tree.Distinct)
    (notEmpty : path.text ≠ "") : (found skip path tree).Pairwise Before := by
  induction distinct generalizing path with
  | file content =>
    rw [found]
    split
    · exact List.pairwise_singleton _ _
    · exact .nil
  | folder nodup inner ih =>
    cases named with
    | folder isNames named =>
      rw [found]
      split
      · exact .nil
      · exact pairwise_inOrder isNames named nodup notEmpty fun e he =>
          ih e he (named e he) (text_join_ne_left notEmpty)

end Found

/-! ## All worksheets below a root -/

section Discover

variable {skip root : Path} {tree : FileTree} {entries : List (String × FileTree)}

/-- At the place stands a worksheet of the folder `top`, which is searched from the path `root`, and
no folder on the way from there to the worksheet is the one at `skip`. -/
structure Sought (skip root : Path) (top : FileTree) (place : Place) : Prop where
  file : ∃ content, top.get? place = some (.file content)
  isWorksheet : ∃ name, place.getLast? = some name ∧ IsWorksheetName name
  apart : ∀ above, above ≠ [] → above ≠ place → above <+: place →
    (root.under above).components ≠ skip.components

theorem isWorksheet_under_iff {place : Place} {name : String} (notEmpty : root.text ≠ "")
    (isNames : ∀ n ∈ place, IsName n) (last : place.getLast? = some name) :
    isWorksheet (root.under place) = true ↔ IsWorksheetName name := by
  obtain ⟨init, rfl⟩ := List.getLast?_eq_some_iff.1 last
  have components : (root.under (init ++ [name])).components =
      root.components ++ init.map .named ++ [.named name] := by
    rw [components_under notEmpty isNames, List.map_append, List.append_assoc]
    rfl
  exact isWorksheet_iff components

/-- Below its first folder a worksheet is sought exactly if the search finds it there. -/
theorem sought_iff_foundAt {top : FileTree} {first : String} {names : List String}
    {content : ByteArray} (notEmpty : root.text ≠ "") (isNames : ∀ n ∈ first :: names, IsName n)
    (hget : top.get? (first :: names) = some (.file content)) :
    Sought skip root top (first :: names) ↔
      FoundAt skip (root.join ⟨first⟩) names (root.under (first :: names)) := by
  constructor
  · rintro ⟨-, ⟨name, last, worksheet⟩, apart⟩
    refine ⟨rfl, fun n hn => isNames n (List.mem_cons_of_mem _ hn),
      (isWorksheet_under_iff notEmpty isNames last).2 worksheet, fun above below split notNil => ?_⟩
    have differs := apart (first :: above) (by simp)
      (fun same => notNil (by simpa [split] using same)) ⟨below, by rw [split]; rfl⟩
    simpa [sameAs, under_cons] using differs
  · intro hfound
    have last := List.getLast?_eq_some_getLast (List.cons_ne_nil first names)
    refine ⟨⟨content, hget⟩,
      ⟨_, last, (isWorksheet_under_iff notEmpty isNames last).1 hfound.isWorksheet⟩, ?_⟩
    rintro above notNil ne ⟨below, split⟩
    cases above with
    | nil => exact absurd rfl notNil
    | cons first' above =>
      obtain ⟨rfl, tail⟩ := List.cons.inj split
      have notNil' : below ≠ [] := by
        rintro rfl
        exact ne (by rw [← split, List.append_nil])
      have differs := hfound.apart above below tail.symm notNil'
      simpa [sameAs, under_cons] using differs

theorem mem_inOrder_iff_sought {w : Path} (named : (FileTree.folder entries).WellNamed)
    (distinct : (FileTree.folder entries).Distinct) (notEmpty : root.text ≠ "") :
    w ∈ inOrder (foundIn skip root entries) ↔
      ∃ place, Sought skip root (.folder entries) place ∧ root.under place = w := by
  have allNamed {place : Place} {t : FileTree}
      (h : (FileTree.folder entries).get? place = some t) : ∀ n ∈ place, IsName n :=
    named.isName h
  cases named with
  | folder isNames inner =>
  cases distinct with
  | folder nodup innerDistinct =>
  rw [mem_inOrder_foundIn]
  constructor
  · rintro ⟨e, he, hw⟩
    obtain ⟨names, content, hget, hfound⟩ := (mem_found_iff (inner e he) (innerDistinct e he)
      (text_join_ne_left notEmpty)).1 hw
    have hget : (FileTree.folder entries).get? (e.1 :: names) = some (.file content) := by
      rw [get?_folder_cons, lookup_of_mem nodup he, Option.bind_some, hget]
    obtain rfl : w = root.under (e.1 :: names) := hfound.path_eq
    exact ⟨_, (sought_iff_foundAt notEmpty (allNamed hget) hget).2 hfound, rfl⟩
  · rintro ⟨place, sought, rfl⟩
    obtain ⟨content, hget⟩ := sought.file
    cases place with
    | nil => simp [get?_nil] at hget
    | cons first names =>
      have hfound := (sought_iff_foundAt notEmpty (allNamed hget) hget).1 sought
      rw [get?_folder_cons, Option.bind_eq_some_iff] at hget
      obtain ⟨entry, hlookup, hget⟩ := hget
      exact ⟨(first, entry), mem_of_lookup hlookup, mem_found_of_foundAt hget hfound⟩

/-- What is found in the entries of a folder are the worksheets at the places that are sought. -/
theorem exists_places (named : (FileTree.folder entries).WellNamed)
    (distinct : (FileTree.folder entries).Distinct) (notEmpty : root.text ≠ "") :
    ∃ places : List Place, places.map root.under = inOrder (foundIn skip root entries) ∧
      ∀ place, place ∈ places ↔ Sought skip root (.folder entries) place := by
  have mem {w : Path} : w ∈ inOrder (foundIn skip root entries) ↔
      ∃ place, Sought skip root (.folder entries) place ∧ root.under place = w :=
    mem_inOrder_iff_sought named distinct notEmpty
  obtain ⟨places, hplaces, sought⟩ : ∃ places : List Place,
      places.map root.under = inOrder (foundIn skip root entries) ∧
        ∀ place ∈ places, Sought skip root (.folder entries) place := by
    choose place sought path using fun w hw => (mem (w := w)).1 hw
    refine ⟨(inOrder (foundIn skip root entries)).attach.map fun w => place w.1 w.2, ?_, ?_⟩
    · simp only [List.map_map, Function.comp_def, path, List.attach_map_subtype_val]
    · simp only [List.mem_map, forall_exists_index, and_imp]
      rintro _ w - rfl
      exact sought w.1 w.2
  refine ⟨places, hplaces, fun place => ⟨sought place, fun h => ?_⟩⟩
  have listed : root.under place ∈ places.map root.under := by
    rw [hplaces]
    exact mem.2 ⟨place, h, rfl⟩
  -- one path has one place
  obtain ⟨place', hplace', same⟩ := List.mem_map.1 listed
  obtain ⟨content, hfile⟩ := h.file
  obtain ⟨content', hfile'⟩ := (sought place' hplace').file
  obtain rfl := under_inj notEmpty (named.isName hfile') (named.isName hfile) (by rw [same])
  exact hplace'

theorem pairwise_inOrder_foundIn (named : (FileTree.folder entries).WellNamed)
    (distinct : (FileTree.folder entries).Distinct) (notEmpty : root.text ≠ "") :
    (inOrder (foundIn skip root entries)).Pairwise Before := by
  cases named with
  | folder isNames inner =>
  cases distinct with
  | folder nodup innerDistinct =>
    exact pairwise_inOrder isNames inner nodup notEmpty fun e he =>
      pairwise_found (inner e he) (innerDistinct e he) (text_join_ne_left notEmpty)

/-- A search from a folder lists the worksheets that are sought in it, each of them once and in the
order of their paths. -/
theorem exists_discover_eq (named : tree.WellNamed) (distinct : tree.Distinct)
    (folder : tree.find root = .ok (.folder entries)) :
    ∃ places : List Place,
      discover tree root skip = .ok (places.map root.under) ∧
      (∀ place, place ∈ places ↔ Sought skip root (.folder entries) place) ∧
      places.Nodup ∧ (places.map root.under).Pairwise Before := by
  obtain ⟨notEmpty, base, hget, -⟩ := exists_standsAt (list_eq_ok_iff.2 folder)
  have named := named.get? hget
  have distinct := distinct.get? hget
  have found : discover tree root skip = .ok (inOrder (foundIn skip root entries)) := by
    rw [discover, list_eq_ok_iff.2 folder]
    rfl
  obtain ⟨places, hplaces, sought⟩ := @exists_places skip _ _ named distinct notEmpty
  have ordered : (places.map root.under).Pairwise Before := by
    rw [hplaces]
    exact pairwise_inOrder_foundIn named distinct notEmpty
  refine ⟨places, hplaces ▸ found, sought, ?_, ordered⟩
  rw [List.pairwise_map] at ordered
  exact ordered.imp fun {place place'} before same =>
    not_before_of_components_eq (congrArg (fun names => (root.under names).components) same) before

end Discover

/-- The entries of a folder in which the order of the texts is another one. -/
def mixedEntries : List (String × FileTree) :=
  [("a.xmcd", .file "1".toUTF8),
   ("a-b", .folder [("z.XMCD", .file "2".toUTF8), (".xmcd", .file "3".toUTF8)]),
   ("Net", .folder [("old.xmcd", .file "4".toUTF8)]),
   ("a", .folder [("Net", .folder [("c.Xmcd", .file "5".toUTF8)])])]

/-- The tree with this folder. -/
def mixedTree : FileTree :=
  .folder [("w", .folder mixedEntries)]

theorem wellNamed_mixedTree : mixedTree.WellNamed := by
  have single {name : String} {t : FileTree} (hname : IsName name) (ht : t.WellNamed) :
      WellNamed (.folder [(name, t)]) :=
    .folder (by simpa using hname) (by simpa using ht)
  refine single (by decide) (.folder (by decide) ?_)
  simp only [mixedEntries, List.forall_mem_cons]
  refine ⟨.file _, .folder (by decide) ?_, single (by decide) (.file _),
    single (by decide) (single (by decide) (.file _)), by simp⟩
  simp only [List.forall_mem_cons]
  exact ⟨.file _, .file _, by simp⟩

theorem distinct_mixedTree : mixedTree.Distinct := by
  have single {name : String} {t : FileTree} (ht : t.Distinct) : Distinct (.folder [(name, t)]) :=
    .folder (by simp) (by simpa using ht)
  refine single (.folder (by decide) ?_)
  simp only [mixedEntries, List.forall_mem_cons]
  refine ⟨.file _, .folder (by decide) ?_, single (.file _), single (single (.file _)), by simp⟩
  simp only [List.forall_mem_cons]
  exact ⟨.file _, .file _, by simp⟩

/-- The folder that is left out is given with a dot and slashes too many. -/
theorem exists_discover_mixedTree :
    mixedTree.find ⟨"w/"⟩ = .ok (.folder mixedEntries) ∧
      (discover mixedTree ⟨"w/"⟩ ⟨"w/.//Net/"⟩).toOption =
        some [⟨"w/a/Net/c.Xmcd"⟩, ⟨"w/a-b/z.XMCD"⟩, ⟨"w/a.xmcd"⟩] ∧
      ∃ places : List Place,
        discover mixedTree ⟨"w/"⟩ ⟨"w/.//Net/"⟩ = .ok (places.map (Path.under ⟨"w/"⟩)) ∧
        (∀ place, place ∈ places ↔ Sought ⟨"w/.//Net/"⟩ ⟨"w/"⟩ (.folder mixedEntries) place) ∧
        places.Nodup ∧ (places.map (Path.under ⟨"w/"⟩)).Pairwise Before := by
  have folder : mixedTree.find ⟨"w/"⟩ = .ok (.folder mixedEntries) := by rfl
  exact ⟨folder, by decide +kernel,
    exists_discover_eq wellNamed_mixedTree distinct_mixedTree folder⟩

end Batch

end Calcsheet
