import Calcsheet.Attributes
import Calcsheet.Proofs.Lists
import Mathlib.Data.Finset.Card

/-!
# Attributes in the order of insertion

Setting a key writes one entry: the one that has the key, or a new one behind all others
(`keys_set`). Every other entry stays as it is and where it is (`getElem?_setEntry`), so two keys
can be set in either order, unless both are new (`set_comm_iff`).

Attributes on which pairs were set one after another have each key once, where it came first, with
the value that came last (`Records`). One more pair keeps this (`Records.set`), hence any number of
them does (`Records.foldl`), and what is stored and found follows (`insertionOrdered_ofList`).
-/

namespace Calcsheet

namespace Attributes

variable {as : Attributes} {entries pairs : List (String × String)} {key key' value : String}

/-! ## One key -/

theorem setEntry_of_not_mem (new : key ∉ entries.map Prod.fst) :
    setEntry key value entries = entries ++ [(key, value)] := by
  induction entries with
  | nil => rfl
  | cons entry rest ih =>
    simp only [List.map_cons, List.mem_cons, not_or] at new
    rw [setEntry, if_neg (Ne.symm new.1), ih new.2, List.cons_append]

theorem map_fst_setEntry_of_mem (here : key ∈ entries.map Prod.fst) (value : String) :
    (setEntry key value entries).map Prod.fst = entries.map Prod.fst := by
  induction entries with
  | nil => cases here
  | cons entry rest ih =>
    rw [setEntry]
    split
    · next found => rw [List.map_cons, List.map_cons, found]
    · next notFound =>
      have later : key ∈ rest.map Prod.fst := (List.mem_cons.1 here).resolve_left (Ne.symm notFound)
      rw [List.map_cons, List.map_cons, ih later]

/-- A key that is there stays where it is, and a new one comes last. -/
theorem keys_set (as : Attributes) (key value : String) :
    (as.set key value).keys = if key ∈ as.keys then as.keys else as.keys ++ [key] := by
  split
  · next here => exact map_fst_setEntry_of_mem here value
  · next new => rw [keys, set, setEntry_of_not_mem new, List.map_append, keys]; rfl

theorem nodup_keys_set (distinct : as.keys.Nodup) (key value : String) :
    (as.set key value).keys.Nodup := by
  rw [keys_set]
  split
  · exact distinct
  · next new =>
    refine List.nodup_append.2 ⟨distinct, by simp, fun k hk k' hk' => ?_⟩
    rw [List.mem_singleton.1 hk']
    exact fun same => new (same ▸ hk)

theorem get?_set (as : Attributes) (key value key' : String) :
    (as.set key value).get? key' = if key' = key then some value else as.get? key' := by
  obtain ⟨entries⟩ := as
  rw [get?, get?, set]
  dsimp only
  induction entries with
  | nil => rw [setEntry, lookup_cons_eq]
  | cons entry entries ih =>
    rw [setEntry, lookup_cons_eq]
    split
    · next found =>
      rw [lookup_cons_eq, found]
      split <;> rfl
    · next notFound =>
      rw [lookup_cons_eq, ih]
      by_cases same : key' = entry.1
      · rw [if_pos same, if_pos same, if_neg (same ▸ notFound)]
      · rw [if_neg same, if_neg same]

/-! ## Other keys -/

/-- An entry with another key stays at its place, and none comes in. -/
theorem getElem?_setEntry {entry : String × String} (other : entry.1 ≠ key) (value : String)
    (i : Nat) : (setEntry key value entries)[i]? = some entry ↔ entries[i]? = some entry := by
  have notWritten {v : String} : some (key, v) ≠ some entry := fun same =>
    other (congrArg Prod.fst (Option.some.inj same)).symm
  induction entries generalizing i with
  | nil =>
    cases i with
    | zero => exact ⟨fun same => absurd same notWritten, nofun⟩
    | succ i => exact Iff.rfl
  | cons first rest ih =>
    rw [setEntry]
    split
    · next found =>
      cases i with
      | zero =>
        subst found
        exact ⟨fun same => absurd same notWritten, fun same => absurd same notWritten⟩
      | succ i => exact Iff.rfl
    · cases i with
      | zero => exact Iff.rfl
      | succ i => exact ih i

theorem setEntry_comm (different : key ≠ key') (here : key ∈ entries.map Prod.fst)
    (value value' : String) :
    setEntry key' value' (setEntry key value entries) =
      setEntry key value (setEntry key' value' entries) := by
  induction entries with
  | nil => cases here
  | cons entry rest ih =>
    by_cases found : entry.1 = key
    · have notFound : entry.1 ≠ key' := found ▸ different
      simp only [setEntry, if_pos found, if_neg notFound, if_neg different]
    · by_cases found' : entry.1 = key'
      · simp only [setEntry, if_neg found, if_pos found', if_neg different.symm]
      · have later : key ∈ rest.map Prod.fst := (List.mem_cons.1 here).resolve_left (Ne.symm found)
        simp only [setEntry, if_neg found, if_neg found', ih later]

/-- It shows which of two keys was set first only if both are new. -/
theorem set_comm_iff (different : key ≠ key') (value value' : String) :
    (as.set key value).set key' value' = (as.set key' value').set key value ↔
      key ∈ as.keys ∨ key' ∈ as.keys := by
  constructor
  · intro same
    by_contra new
    rw [not_or] at new
    have keysSame := congrArg keys same
    have new₁ : key' ∉ as.keys ++ [key] := by simp [new.2, different.symm]
    have new₂ : key ∉ as.keys ++ [key'] := by simp [new.1, different]
    rw [keys_set, keys_set, keys_set, keys_set, if_neg new.1, if_neg new.2, if_neg new₁,
      if_neg new₂] at keysSame
    exact different (by simpa using (List.append_inj_right' keysSame rfl).symm)
  · rintro (here | here)
    · exact congrArg Attributes.mk (setEntry_comm different here value value')
    · exact congrArg Attributes.mk (setEntry_comm different.symm here value' value).symm

/-! ## Pair after pair -/

/-- Attributes with different keys are kept as they come. -/
theorem ofList_eq (distinct : (pairs.map Prod.fst).Nodup) : ofList pairs = ⟨pairs⟩ := by
  suffices h : ∀ before : List (String × String), ((before ++ pairs).map Prod.fst).Nodup →
      pairs.foldl (fun as pair => as.set pair.1 pair.2) ⟨before⟩ =
        (⟨before ++ pairs⟩ : Attributes) by
    exact h [] distinct
  intro before nodup
  clear distinct
  induction pairs generalizing before with
  | nil => simp
  | cons pair rest ih =>
    have new : pair.1 ∉ before.map Prod.fst := by
      rw [List.map_append, List.map_cons, List.nodup_append] at nodup
      intro mem
      exact nodup.2.2 _ mem _ (by simp) rfl
    have set : (⟨before⟩ : Attributes).set pair.1 pair.2 = ⟨before ++ [pair]⟩ := by
      rw [set, setEntry_of_not_mem new]
    show rest.foldl _ (Attributes.set ⟨before⟩ pair.1 pair.2) = _
    rw [set, ih (before ++ [pair]) (by simpa using nodup), List.append_assoc, List.singleton_append]

/-- What the pairs leave when they are set in turn: each key once and in the order in which the keys
come first, with the value that comes last. -/
structure Records (pairs : List (String × String)) (as : Attributes) : Prop where
  keys : as.keys = (pairs.map Prod.fst).eraseDups
  nodup : as.keys.Nodup
  get? : ∀ key, as.get? key = pairs.reverse.lookup key

theorem records_empty : Records [] empty :=
  ⟨rfl, List.nodup_nil, fun _ => rfl⟩

namespace Records

theorem mem_keys (h : Records pairs as) : key ∈ as.keys ↔ key ∈ pairs.map Prod.fst := by
  rw [h.keys, List.mem_eraseDups]

theorem set (h : Records pairs as) (key value : String) :
    Records (pairs ++ [(key, value)]) (as.set key value) where
  keys := by
    rw [keys_set, List.map_append, List.eraseDups_append, ← h.keys, List.map_singleton,
      List.cons_removeAll, List.nil_removeAll]
    split
    · next here => simp [h.mem_keys.1 here]
    · next new => simp [mt h.mem_keys.2 new, List.eraseDups_cons]
  nodup := nodup_keys_set h.nodup key value
  get? key' := by
    rw [get?_set, List.reverse_append, List.reverse_singleton, List.singleton_append,
      lookup_cons_eq, h.get?]

theorem foldl (h : Records pairs as) (later : List (String × String)) :
    Records (pairs ++ later) (later.foldl (fun as pair => as.set pair.1 pair.2) as) := by
  induction later generalizing pairs as with
  | nil => rwa [List.append_nil]
  | cons pair later ih =>
    have := ih (h.set pair.1 pair.2)
    rwa [List.append_assoc] at this

/-- Of the values for a key the last one is found. -/
theorem get?_eq_some_iff (h : Records pairs as) :
    as.get? key = some value ↔
      ∃ earlier later, pairs = earlier ++ (key, value) :: later ∧ key ∉ later.map Prod.fst := by
  have turn (earlier later : List (String × String)) :
      pairs.reverse = later ++ (key, value) :: earlier ↔
        pairs = earlier.reverse ++ (key, value) :: later.reverse := by
    rw [List.reverse_eq_iff]
    simp
  rw [h.get?, lookup_eq_some_iff_exists]
  constructor
  · rintro ⟨later, earlier, split, last⟩
    exact ⟨earlier.reverse, later.reverse, (turn _ _).1 split, by simpa using last⟩
  · rintro ⟨earlier, later, split, last⟩
    exact ⟨later.reverse, earlier.reverse, (turn _ _).2 (by simpa using split), by simpa using last⟩

theorem get?_eq_none_iff (h : Records pairs as) :
    as.get? key = none ↔ key ∉ pairs.map Prod.fst := by
  rw [h.get?, lookup_eq_none_iff_not_mem, List.map_reverse, List.mem_reverse]

theorem mem_entries_iff (h : Records pairs as) :
    (key, value) ∈ as.entries ↔ as.get? key = some value :=
  ⟨lookup_of_mem h.nodup, mem_of_lookup⟩

theorem size_eq (h : Records pairs as) : as.size = (pairs.map Prod.fst).toFinset.card := by
  have sameKeys : as.keys.toFinset = (pairs.map Prod.fst).toFinset := by
    ext key
    rw [List.mem_toFinset, List.mem_toFinset, h.mem_keys]
  calc as.size = as.keys.length := (List.length_map Prod.fst).symm
    _ = as.keys.toFinset.card := (List.toFinset_card_of_nodup h.nodup).symm
    _ = (pairs.map Prod.fst).toFinset.card := by rw [sameKeys]

end Records

theorem records_ofList (pairs : List (String × String)) : Records pairs (ofList pairs) :=
  records_empty.foldl pairs

/-- Attributes are a map in the order of insertion. After any pairs, the keys are those of the pairs,
each once and in the order in which they come first; under a key the value of its last pair is found,
which is the one stored with it, and under no other key is anything found. So there are as many
attributes as different keys. Two keys that are there can be set in either order, and setting a key
leaves the entries of all others as they are and where they are. -/
theorem insertionOrdered_ofList (pairs : List (String × String)) :
    (ofList pairs).keys.Nodup ∧ (ofList pairs).keys = (pairs.map Prod.fst).eraseDups ∧
      (∀ key value, (ofList pairs).get? key = some value ↔
        ∃ earlier later, pairs = earlier ++ (key, value) :: later ∧ key ∉ later.map Prod.fst) ∧
      (∀ key, (ofList pairs).get? key = none ↔ key ∉ pairs.map Prod.fst) ∧
      (∀ key value, (key, value) ∈ (ofList pairs).entries ↔
        (ofList pairs).get? key = some value) ∧
      (ofList pairs).size = (pairs.map Prod.fst).toFinset.card ∧
      (∀ (as : Attributes) (key value key' value' : String), key ≠ key' → key ∈ as.keys →
        key' ∈ as.keys →
          (as.set key value).set key' value' = (as.set key' value').set key value) ∧
      ∀ (as : Attributes) (key value : String) (i : Nat) (entry : String × String),
        entry.1 ≠ key →
          ((as.set key value).entries[i]? = some entry ↔ as.entries[i]? = some entry) := by
  have records := records_ofList pairs
  refine ⟨records.nodup, records.keys, fun _ _ => records.get?_eq_some_iff,
    fun _ => records.get?_eq_none_iff, fun _ _ => records.mem_entries_iff, records.size_eq, ?_, ?_⟩
  · intro as key value key' value' different here _
    exact (set_comm_iff different value value').2 (.inl here)
  · intro as key value i entry other
    exact getElem?_setEntry other value i

/-- The attributes of a matrix, with one of them given twice. -/
def resizedMatrix : List (String × String) :=
  [("rows", "2"), ("cols", "3"), ("rows", "4"), ("id", "m")]

theorem insertionOrdered_resizedMatrix :
    (ofList resizedMatrix).keys = ["rows", "cols", "id"] ∧
      (ofList resizedMatrix).get? "rows" = some "4" ∧ (ofList resizedMatrix).size = 3 ∧
      ((ofList resizedMatrix).set "rows" "5").set "id" "n" =
        ((ofList resizedMatrix).set "id" "n").set "rows" "5" ∧
      ((ofList resizedMatrix).set "rows" "5").entries[1]? = some ("cols", "3") := by
  obtain ⟨-, keys, last, -, -, size, comm, stays⟩ := insertionOrdered_ofList resizedMatrix
  have order : (ofList resizedMatrix).keys = ["rows", "cols", "id"] := keys.trans (by decide)
  refine ⟨order, ?_, size.trans (by decide), ?_, ?_⟩
  · exact (last "rows" "4").2 ⟨[("rows", "2"), ("cols", "3")], [("id", "m")], rfl, by decide⟩
  · exact comm _ _ _ _ _ (by decide) (by simp [order]) (by simp [order])
  · exact (stays _ _ _ _ _ (by decide)).2 (by decide)

end Attributes

end Calcsheet
