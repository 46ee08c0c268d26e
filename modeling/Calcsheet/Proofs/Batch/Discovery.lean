import Calcsheet.Batch
import Calcsheet.Proofs.FileTree.Route
import Calcsheet.Proofs.Text.Sorted

/-!
# Which worksheets are found

The search for worksheets goes down from the root by the names of entries. So each worksheet found
has a path made of the root and names, and none of the folders on the way is the one that is left
out (`exists_of_mem_discover`).
-/

namespace Calcsheet

open FileTree Calcsheet.Path

/-- All names of entries are such as entries can have. -/
inductive FileTree.WellNamed : FileTree → Prop
  | file (content : ByteArray) : WellNamed (.file content)
  | folder {entries : List (String × FileTree)} (names : ∀ e ∈ entries, IsName e.1)
    (inner : ∀ e ∈ entries, WellNamed e.2) : WellNamed (.folder entries)

theorem FileTree.WellNamed.get? {tree entry : FileTree} {place : Place} (named : tree.WellNamed)
    (h : tree.get? place = some entry) : entry.WellNamed := by
  induction place generalizing tree with
  | nil =>
    obtain rfl : tree = entry := by simpa [get?_nil] using h
    exact named
  | cons name rest ih =>
    cases named with
    | file content => simp [get?_file_cons] at h
    | @folder entries names inner =>
      rw [get?_folder_cons, Option.bind_eq_some_iff] at h
      obtain ⟨t, hlookup, h⟩ := h
      exact ih (inner (name, t) (mem_of_lookup hlookup)) h

namespace Batch

variable {skip path : Path} {entries : List (String × FileTree)}

theorem foundIn_eq (skip path : Path) (entries : List (String × FileTree)) :
    foundIn skip path entries = entries.map fun e => (e.1, found skip (path.join ⟨e.1⟩) e.2) := by
  induction entries with
  | nil => rw [foundIn]; rfl
  | cons e rest ih => rw [foundIn, ih]; rfl

theorem mem_inOrder_foundIn {w : Path} :
    w ∈ inOrder (foundIn skip path entries) ↔
      ∃ e ∈ entries, w ∈ found skip (path.join ⟨e.1⟩) e.2 := by
  simp only [inOrder, foundIn_eq, List.mem_flatMap, Text.mem_sortOn, List.mem_map]
  constructor
  · rintro ⟨_, ⟨e, he, rfl⟩, hw⟩
    exact ⟨e, he, hw⟩
  · rintro ⟨e, he, hw⟩
    exact ⟨_, ⟨e, he, rfl⟩, hw⟩

/-- The worksheet `w` is at `names` below `path`, and no folder on the way is the one at `skip`. -/
structure FoundAt (skip path : Path) (names : List String) (w : Path) : Prop where
  path_eq : w = path.under names
  isName : ∀ name ∈ names, IsName name
  isWorksheet : isWorksheet w = true
  apart : ∀ above below, names = above ++ below → below ≠ [] → (path.under above).sameAs skip = false

theorem exists_foundAt {tree : FileTree} {w : Path} (named : tree.WellNamed)
    (h : w ∈ found skip path tree) : ∃ names, FoundAt skip path names w := by
  induction named generalizing path with
  | file content =>
    rw [found] at h
    split at h
    · next worksheet =>
      obtain rfl : w = path := by simpa using h
      refine ⟨[], rfl, by simp, worksheet, fun above below hnames notNil => ?_⟩
      exact absurd (List.append_eq_nil_iff.1 hnames.symm).2 notNil
    · cases h
  | folder isNames inner ih =>
    rw [found] at h
    split at h
    · cases h
    · next differs =>
      obtain ⟨e, he, hw⟩ := mem_inOrder_foundIn.1 h
      obtain ⟨names, hfound⟩ := ih e he hw
      refine ⟨e.1 :: names, hfound.path_eq, ?_, hfound.isWorksheet, ?_⟩
      · exact List.forall_mem_cons.2 ⟨isNames e he, hfound.isName⟩
      · intro above below hnames notNil
        cases above with
        | nil => simpa [Path.under] using differs
        | cons name above =>
          obtain ⟨rfl, htail⟩ := List.cons.inj hnames
          exact hfound.apart above below htail notNil

/-- A worksheet is found in a folder below the root that the search comes to without meeting the
folder that is left out. -/
theorem exists_of_mem_discover {tree : FileTree} {root w : Path} {files : List Path}
    (named : tree.WellNamed) (h : discover tree root skip = .ok files) (hw : w ∈ files) :
    ∃ dirs name, w = (root.under dirs).join ⟨name⟩ ∧ (∀ dir ∈ dirs, IsName dir) ∧ IsName name ∧
      isWorksheet w = true ∧
      ∀ above, above ≠ [] → above <+: dirs → (root.under above).sameAs skip = false := by
  obtain ⟨entries, hlist, h⟩ := bind_eq_ok_iff.1 h
  obtain rfl := Except.ok.inj h
  obtain ⟨-, place, hget, -⟩ := exists_standsAt hlist
  cases named.get? hget with
  | folder isNames inner =>
    obtain ⟨e, he, hw⟩ := mem_inOrder_foundIn.1 hw
    obtain ⟨names, hfound⟩ := exists_foundAt (inner e he) hw
    obtain ⟨dirs, name, hnames⟩ : ∃ dirs name, e.1 :: names = dirs ++ [name] :=
      ⟨_, _, (List.dropLast_concat_getLast (List.cons_ne_nil e.1 names)).symm⟩
    have isName : ∀ n ∈ dirs ++ [name], IsName n := by
      rw [← hnames]
      exact List.forall_mem_cons.2 ⟨isNames e he, hfound.isName⟩
    refine ⟨dirs, name, ?_, fun dir hdir => isName dir (by simp [hdir]), isName name (by simp),
      hfound.isWorksheet, ?_⟩
    · have hpath : w = root.under (e.1 :: names) := hfound.path_eq
      rw [hpath, hnames, under_append]
      rfl
    · rintro above notNil ⟨rest, rfl⟩
      cases above with
      | nil => exact absurd rfl notNil
      | cons first above =>
        rw [List.append_assoc, List.cons_append] at hnames
        obtain ⟨rfl, htail⟩ := List.cons.inj hnames
        exact hfound.apart above (rest ++ [name]) htail (by simp)

end Batch

end Calcsheet
