import Calcsheet.Path
import Calcsheet.Proofs.Lists

/-!
# The components of paths

Joining puts components together (`components_join`), the parent has all components but the last
(`exists_parent?`), and what is below a base has the components after those of the base
(`exists_below?`). All three hold of the texts of paths, with their slashes and dots, because a path
that is put together from a start and pieces is taken apart into the same ones
(`components_ofPieces`).

`under` goes down from a path by names. A path whose components are all names is relative, and the
pieces that count in it are the names (`solid_of_components_eq`).
-/

namespace Calcsheet.Path

/-! ## Pieces between slashes -/

theorem splitSlash_ne_nil (s : List Char) : splitSlash s ≠ [] := by
  cases s with
  | nil => simp [splitSlash]
  | cons c s =>
    rw [splitSlash]
    split
    · simp
    · split <;> simp

theorem splitSlash_append (s s' : List Char) :
    splitSlash (s ++ '/' :: s') = splitSlash s ++ splitSlash s' := by
  induction s with
  | nil => simp [splitSlash]
  | cons c s ih =>
    by_cases slash : c = '/'
    · simp [splitSlash, slash, ih]
    · rw [List.cons_append, splitSlash, if_neg slash, splitSlash, if_neg slash, ih]
      cases h : splitSlash s with
      | nil => exact absurd h (splitSlash_ne_nil s)
      | cons piece rest => rfl

theorem slash_not_mem_of_mem_splitSlash {s piece : List Char} (h : piece ∈ splitSlash s) :
    '/' ∉ piece := by
  induction s generalizing piece with
  | nil =>
    obtain rfl : piece = [] := by simpa [splitSlash] using h
    simp
  | cons c s ih =>
    by_cases slash : c = '/'
    · rw [splitSlash, if_pos slash, List.mem_cons] at h
      rcases h with rfl | h
      · simp
      · exact ih h
    · rw [splitSlash, if_neg slash] at h
      cases hs : splitSlash s with
      | nil => exact absurd hs (splitSlash_ne_nil s)
      | cons first rest =>
        rw [hs, List.mem_cons] at h
        rcases h with rfl | h
        · have := ih (by rw [hs]; exact List.mem_cons_self)
          simp [this, Ne.symm slash]
        · exact ih (by rw [hs]; exact List.mem_cons_of_mem first h)

theorem splitSlash_of_not_mem {s : List Char} (h : '/' ∉ s) : splitSlash s = [s] := by
  induction s with
  | nil => rfl
  | cons c s ih =>
    obtain ⟨slash, h⟩ : ¬ '/' = c ∧ '/' ∉ s := by simpa using h
    rw [splitSlash, if_neg (Ne.symm slash), ih h]

theorem piecesOf_append (s s' : List Char) :
    piecesOf (s ++ '/' :: s') = piecesOf s ++ piecesOf s' := by
  simp [piecesOf, splitSlash_append]

theorem slash_not_mem_of_mem_piecesOf {s : List Char} {piece : String} (h : piece ∈ piecesOf s) :
    '/' ∉ piece.toList := by
  obtain ⟨chars, hchars, rfl⟩ := List.mem_map.1 h
  simpa using slash_not_mem_of_mem_splitSlash hchars

theorem piecesOf_of_not_mem {name : String} (h : '/' ∉ name.toList) :
    piecesOf name.toList = [name] := by
  simp [piecesOf, splitSlash_of_not_mem h]

theorem piecesOf_joinWith {pieces : List String} (notNil : pieces ≠ [])
    (noSlash : ∀ piece ∈ pieces, '/' ∉ piece.toList) :
    piecesOf (Text.joinWith "/" pieces).toList = pieces := by
  induction pieces with
  | nil => exact absurd rfl notNil
  | cons piece rest ih =>
    have first := piecesOf_of_not_mem (noSlash piece (by simp))
    cases rest with
    | nil => exact first
    | cons next rest =>
      have others := ih (by simp) fun piece h => noSlash piece (List.mem_cons_of_mem _ h)
      have text : (Text.joinWith "/" (piece :: next :: rest)).toList =
          piece.toList ++ '/' :: (Text.joinWith "/" (next :: rest)).toList := by
        simp [Text.joinWith]
      rw [text, piecesOf_append, first, others, List.singleton_append]

/-! ## Void pieces -/

/-- The pieces that count. -/
def solid (pieces : List String) : List String :=
  pieces.filter fun piece => !isVoid piece

theorem solid_append (ps qs : List String) : solid (ps ++ qs) = solid ps ++ solid qs :=
  List.filter_append ..

theorem solid_dropWhile (ps : List String) : solid (ps.dropWhile isVoid) = solid ps := by
  induction ps with
  | nil => rfl
  | cons piece rest ih =>
    rw [List.dropWhile_cons]
    split
    · next void => rw [ih, solid, solid, List.filter_cons_of_neg (by simp [void])]
    · rfl

theorem solid_reverse (ps : List String) : solid ps.reverse = (solid ps).reverse :=
  List.filter_reverse ..

theorem solid_trimPieces (ps : List String) : solid (trimPieces ps) = solid ps := by
  rw [trimPieces, solid_reverse, solid_dropWhile, solid_reverse, List.reverse_reverse]

theorem trimPieces_isPrefix (ps : List String) : trimPieces ps <+: ps := by
  have := List.dropWhile_suffix isVoid (l := ps.reverse)
  rw [trimPieces, ← List.reverse_suffix, List.reverse_reverse]
  exact this

theorem solid_dropComponents (n : Nat) (ps : List String) :
    solid (dropComponents n ps) = (solid ps).drop n := by
  induction n generalizing ps with
  | zero => rw [dropComponents, solid_dropWhile, List.drop_zero]
  | succ n ih =>
    rw [dropComponents, ih, ← solid_dropWhile ps]
    cases h : ps.dropWhile isVoid with
    | nil => simp [solid]
    | cons piece rest =>
      have head : isVoid piece = false := by
        have := List.head?_dropWhile_not isVoid ps
        simpa [h] using this
      simp [solid, head]

theorem dropComponents_suffix (n : Nat) (ps : List String) : dropComponents n ps <:+ ps := by
  induction n generalizing ps with
  | zero => exact List.dropWhile_suffix isVoid
  | succ n ih => exact (ih _).trans ((List.tail_suffix _).trans (List.dropWhile_suffix isVoid))

/-- What is left is empty or begins with a piece that counts. -/
theorem dropComponents_eq_nil_or (n : Nat) (ps : List String) :
    dropComponents n ps = [] ∨
      ∃ first rest, dropComponents n ps = first :: rest ∧ isVoid first = false := by
  induction n generalizing ps with
  | zero =>
    rw [dropComponents]
    cases h : ps.dropWhile isVoid with
    | nil => exact .inl rfl
    | cons first rest =>
      have := List.head?_dropWhile_not isVoid ps
      exact .inr ⟨first, rest, rfl, by simpa [h] using this⟩
  | succ n ih => exact ih _

/-! ## Taking apart and putting together -/

/-- The pieces can stand after the start: put together, they are taken apart at the same places. -/
inductive Fits : Option Component → List String → Prop
  | top (ps : List String) : Fits (some .top) ps
  | here : Fits (some .here) []
  | hereSlash (ps : List String) : Fits (some .here) ("" :: ps)
  | nothing : Fits none []
  | void : Fits none [""]
  | solid {first : String} (ps : List String) : isVoid first = false → Fits none (first :: ps)

theorem Fits.of_isPrefix {start? : Option Component} {ps qs : List String} (h : Fits start? ps)
    (le : qs <+: ps) : Fits start? qs := by
  cases h with
  | top => exact .top qs
  | here =>
    obtain rfl := List.prefix_nil.1 le
    exact .here
  | hereSlash ps =>
    rcases List.prefix_cons_iff.1 le with rfl | ⟨rest, rfl, -⟩
    · exact .here
    · exact .hereSlash rest
  | nothing =>
    obtain rfl := List.prefix_nil.1 le
    exact .nothing
  | void =>
    rcases List.prefix_cons_iff.1 le with rfl | ⟨rest, rfl, rest_le⟩
    · exact .nothing
    · obtain rfl := List.prefix_nil.1 rest_le
      exact .void
  | solid ps first =>
    rcases List.prefix_cons_iff.1 le with rfl | ⟨rest, rfl, -⟩
    · exact .nothing
    · exact .solid rest first

theorem split_of_slash {p : Path} {s : List Char} (h : p.text.toList = '/' :: s) :
    p.split = ⟨some .top, piecesOf s⟩ := by
  rw [split, h]
  rfl

theorem split_of_dot {p : Path} (h : p.text.toList = ['.']) :
    p.split = ⟨some .here, piecesOf []⟩ := by
  rw [split, h]
  rfl

theorem split_of_dot_slash {p : Path} {s : List Char} (h : p.text.toList = '.' :: '/' :: s) :
    p.split = ⟨some .here, piecesOf ('/' :: s)⟩ := by
  rw [split, h]
  rfl

/-- The text begins neither with a slash nor with a dot that is a piece. -/
def IsInner (s : List Char) : Prop :=
  (∀ s', s ≠ '/' :: s') ∧ s ≠ ['.'] ∧ ∀ s', s ≠ '.' :: '/' :: s'

theorem split_of_isInner {p : Path} (h : IsInner p.text.toList) :
    p.split = ⟨none, piecesOf p.text.toList⟩ := by
  obtain ⟨slash, dot, dotSlash⟩ := h
  unfold split
  split
  · next s h => exact absurd h (slash s)
  · next h => exact absurd h dot
  · next s h => exact absurd h (dotSlash s)
  · rfl

/-- The four ways in which a path begins. -/
theorem text_cases (p : Path) :
    (∃ s, p.text.toList = '/' :: s) ∨ p.text.toList = ['.'] ∨
      (∃ s, p.text.toList = '.' :: '/' :: s) ∨ IsInner p.text.toList := by
  by_cases slash : ∃ s, p.text.toList = '/' :: s
  · exact .inl slash
  · by_cases dot : p.text.toList = ['.']
    · exact .inr (.inl dot)
    · by_cases dotSlash : ∃ s, p.text.toList = '.' :: '/' :: s
      · exact .inr (.inr (.inl dotSlash))
      · exact .inr (.inr (.inr ⟨fun s h => slash ⟨s, h⟩, dot, fun s h => dotSlash ⟨s, h⟩⟩))

theorem fits_piecesOf_of_isInner {s : List Char} (h : IsInner s) : Fits none (piecesOf s) := by
  obtain ⟨slash, dot, dotSlash⟩ := h
  cases s with
  | nil => exact .void
  | cons c s =>
    have noSlash : c ≠ '/' := fun h => slash s (by rw [h])
    obtain ⟨piece, rest, hs⟩ := List.exists_cons_of_ne_nil (splitSlash_ne_nil s)
    have pieces : piecesOf (c :: s) = String.ofList (c :: piece) :: rest.map String.ofList := by
      simp [piecesOf, splitSlash, noSlash, hs]
    rw [pieces]
    refine .solid _ ?_
    -- a first piece that is a dot would make the text a dot, or a dot and a slash
    have notDot : ¬ (c = '.' ∧ piece = []) := by
      rintro ⟨rfl, rfl⟩
      cases s with
      | nil => exact dot rfl
      | cons d s =>
        by_cases hd : d = '/'
        · exact dotSlash s (by rw [hd])
        · rw [splitSlash, if_neg hd] at hs
          split at hs <;> simp at hs
    simpa [isVoid, ← String.toList_inj] using notDot

theorem fits_split (p : Path) : Fits p.split.start? p.split.pieces := by
  rcases text_cases p with ⟨s, h⟩ | h | ⟨s, h⟩ | h
  · rw [split_of_slash h]
    exact .top _
  · rw [split_of_dot h]
    exact .hereSlash []
  · rw [split_of_dot_slash h]
    exact .hereSlash (piecesOf s)
  · rw [split_of_isInner h]
    exact fits_piecesOf_of_isInner h

theorem slash_not_mem_of_mem_pieces {p : Path} {piece : String} (h : piece ∈ p.split.pieces) :
    '/' ∉ piece.toList := by
  rcases text_cases p with ⟨s, hp⟩ | hp | ⟨s, hp⟩ | hp
  · rw [split_of_slash hp] at h
    exact slash_not_mem_of_mem_piecesOf h
  · rw [split_of_dot hp] at h
    exact slash_not_mem_of_mem_piecesOf h
  · rw [split_of_dot_slash hp] at h
    exact slash_not_mem_of_mem_piecesOf h
  · rw [split_of_isInner hp] at h
    exact slash_not_mem_of_mem_piecesOf h

theorem components_eq (p : Path) :
    p.components = p.split.start?.toList ++ (solid p.split.pieces).map Component.ofPiece :=
  rfl

theorem solid_piecesOf_joinWith {ps : List String} (noSlash : ∀ piece ∈ ps, '/' ∉ piece.toList) :
    solid (piecesOf (Text.joinWith "/" ps).toList) = solid ps := by
  cases ps with
  | nil => rfl
  | cons piece rest => rw [piecesOf_joinWith (by simp) noSlash]

/-- A start and pieces that fit are the components of the path made of them. -/
theorem components_ofPieces {start? : Option Component} {ps : List String} (fits : Fits start? ps)
    (noSlash : ∀ piece ∈ ps, '/' ∉ piece.toList) :
    (ofPieces start? ps).components = start?.toList ++ (solid ps).map Component.ofPiece := by
  rw [components_eq]
  cases fits with
  | top ps =>
    have text : (ofPieces (some .top) ps).text.toList = '/' :: (Text.joinWith "/" ps).toList := by
      simp [ofPieces]
    rw [split_of_slash text, solid_piecesOf_joinWith noSlash]
  | here => rfl
  | hereSlash ps =>
    cases ps with
    | nil => rfl
    | cons piece rest =>
      have text : (ofPieces (some .here) ("" :: piece :: rest)).text.toList =
          '.' :: '/' :: (Text.joinWith "/" (piece :: rest)).toList := by
        simp [ofPieces, Text.joinWith]
      rw [split_of_dot_slash text, ← List.nil_append ('/' :: _), piecesOf_append,
        solid_append, solid_piecesOf_joinWith fun p h => noSlash p (List.mem_cons_of_mem _ h)]
      rfl
  | nothing => rfl
  | void => rfl
  | @solid first rest hfirst =>
    have pieces : piecesOf (Text.joinWith "/" (first :: rest)).toList = first :: rest :=
      piecesOf_joinWith (by simp) noSlash
    have inner : IsInner (Text.joinWith "/" (first :: rest)).toList := by
      refine ⟨fun s h => ?_, fun h => ?_, fun s h => ?_⟩ <;> rw [h] at pieces
      · rw [← List.nil_append ('/' :: s), piecesOf_append] at pieces
        simp [piecesOf, splitSlash] at pieces
        simp [isVoid, ← pieces.1] at hfirst
      · simp [piecesOf, splitSlash] at pieces
        simp [isVoid, ← pieces.1] at hfirst
      · rw [show '.' :: '/' :: s = ['.'] ++ '/' :: s from rfl, piecesOf_append] at pieces
        simp [piecesOf, splitSlash] at pieces
        simp [isVoid, ← pieces.1] at hfirst
    have text : (ofPieces none (first :: rest)).text.toList =
        (Text.joinWith "/" (first :: rest)).toList := by
      simp [ofPieces]
    rw [split_of_isInner (text ▸ inner), text, pieces]

/-! ## Parents and relative paths -/

theorem parent?_eq_some {p : Path} {piece : String} {before : List String}
    (h : p.split.pieces.reverse.dropWhile isVoid = piece :: before) :
    p.parent? = some (ofPieces p.split.start? (before.dropWhile isVoid).reverse) := by
  simp only [parent?, h]

/-- A path that ends in a name has a parent, with the components before that name. -/
theorem exists_parent? {p : Path} {cs : List Component} {name : String}
    (h : p.components = cs ++ [.named name]) : ∃ q, p.parent? = some q ∧ q.components = cs := by
  have fits := fits_split p
  have noSlash (piece : String) : piece ∈ p.split.pieces → '/' ∉ piece.toList :=
    slash_not_mem_of_mem_pieces
  rw [components_eq] at h
  have parent (piece : String) (before : List String) :
      p.split.pieces.reverse.dropWhile isVoid = piece :: before →
        p.parent? = some (ofPieces p.split.start? (before.dropWhile isVoid).reverse) :=
    parent?_eq_some
  generalize p.split.start? = start?, p.split.pieces = ps at h fits noSlash parent
  cases last : ps.reverse.dropWhile isVoid with
  | nil =>
    -- nothing counts but the start, which is no name
    have none : solid ps = [] := by
      rw [← List.reverse_eq_nil_iff, ← solid_reverse, ← solid_dropWhile, last]
      rfl
    rw [none, List.map_nil, List.append_nil] at h
    have := congrArg List.getLast? h
    cases fits <;> simp at this
  | cons piece before =>
    have solidPiece : isVoid piece = false := by
      have := List.head?_dropWhile_not isVoid ps.reverse
      simpa [last] using this
    have pieces : solid ps = solid before.reverse ++ [piece] := by
      rw [← List.reverse_inj, ← solid_reverse, ← solid_dropWhile, last, List.reverse_append,
        solid_reverse, List.reverse_reverse]
      simp [solid, solidPiece]
    have le : (before.dropWhile isVoid).reverse <+: ps := by
      rw [← List.reverse_suffix, List.reverse_reverse]
      have inner : before <:+ ps.reverse := by
        have := List.dropWhile_suffix isVoid (l := ps.reverse)
        rw [last] at this
        exact (List.suffix_cons piece before).trans this
      exact (List.dropWhile_suffix isVoid).trans inner
    refine ⟨_, parent piece before last, ?_⟩
    rw [components_ofPieces (fits.of_isPrefix le) fun q hq => noSlash q (le.subset hq),
      solid_reverse, solid_dropWhile, ← solid_reverse]
    rw [pieces, List.map_append, ← List.append_assoc] at h
    exact (List.append_inj' h rfl).1

/-- A path whose components begin with those of a base is seen from there by the others. -/
theorem exists_below? {p base : Path} {cs : List Component}
    (h : p.components = base.components ++ cs) : ∃ q, p.below? base = some q ∧ q.components = cs := by
  have fits := fits_split p
  have noSlash (piece : String) : piece ∈ p.split.pieces → '/' ∉ piece.toList :=
    slash_not_mem_of_mem_pieces
  have below : p.below? base =
      if base.components.isPrefixOf p.components then
        if base.components.length = 0 then
          some (ofPieces p.split.start? (trimPieces p.split.pieces))
        else some (ofPieces none (trimPieces (dropComponents
          (base.components.length - p.split.start?.toList.length) p.split.pieces)))
      else none := rfl
  have begins : base.components.isPrefixOf p.components = true := by
    rw [h]
    simp
  rw [below, if_pos begins]
  have whole := components_eq p
  rw [h] at whole
  generalize p.split.start? = start?, p.split.pieces = ps at fits noSlash whole
  by_cases count : base.components.length = 0
  · rw [if_pos count]
    have le := trimPieces_isPrefix ps
    refine ⟨_, rfl, ?_⟩
    rw [components_ofPieces (fits.of_isPrefix le) fun q hq => noSlash q (le.subset hq),
      solid_trimPieces, ← whole, List.eq_nil_of_length_eq_zero count, List.nil_append]
  · rw [if_neg count]
    generalize dropped : dropComponents (base.components.length - start?.toList.length) ps = rest
    have fits' : Fits none rest := by
      rcases dropComponents_eq_nil_or (base.components.length - start?.toList.length) ps with
        hrest | ⟨first, others, hrest, hfirst⟩
      · rw [← dropped, hrest]
        exact .nothing
      · rw [← dropped, hrest]
        exact .solid others hfirst
    have sub : ∀ piece ∈ trimPieces rest, '/' ∉ piece.toList := by
      intro piece hpiece
      have inRest := (trimPieces_isPrefix rest).subset hpiece
      rw [← dropped] at inRest
      exact noSlash piece ((dropComponents_suffix _ ps).subset inRest)
    refine ⟨_, rfl, ?_⟩
    have one : start?.toList.length ≤ 1 := by
      cases start? <;> simp
    rw [components_ofPieces (fits'.of_isPrefix (trimPieces_isPrefix rest)) sub, solid_trimPieces,
      ← dropped, solid_dropComponents, Option.toList_none, List.nil_append, List.map_drop]
    have := congrArg (List.drop base.components.length) whole
    rw [List.drop_left, List.drop_append, List.drop_eq_nil_of_le (by omega), List.nil_append] at this
    exact this.symm

/-! ## Joining -/

theorem split_append_slash {p q : Path} {s : List Char} (notEmpty : p.text ≠ "")
    (h : q.text.toList = p.text.toList ++ '/' :: s) :
    q.split = ⟨p.split.start?, p.split.pieces ++ piecesOf s⟩ := by
  rcases text_cases p with ⟨t, hp⟩ | hp | ⟨t, hp⟩ | hp
  · rw [split_of_slash hp, split_of_slash (s := t ++ '/' :: s) (by rw [h, hp]; rfl), piecesOf_append]
  · rw [split_of_dot hp, split_of_dot_slash (s := s) (by rw [h, hp]; rfl)]
    rfl
  · rw [split_of_dot_slash hp,
      split_of_dot_slash (s := t ++ '/' :: s) (by rw [h, hp]; rfl), ← List.cons_append,
      piecesOf_append]
  · have inner : IsInner q.text.toList := by
      obtain ⟨slash, dot, dotSlash⟩ := hp
      rw [h]
      have notNil : p.text.toList ≠ [] := by simpa using notEmpty
      obtain ⟨c, t, hp⟩ := List.exists_cons_of_ne_nil notNil
      rw [hp] at slash dot dotSlash ⊢
      refine ⟨fun s' h' => ?_, fun h' => ?_, fun s' h' => ?_⟩
      · exact slash t (by rw [(List.cons.inj h').1])
      · simp at h'
      · obtain ⟨rfl, tail⟩ := List.cons.inj h'
        cases t with
        | nil => exact dot rfl
        | cons d t => exact dotSlash t (by rw [(List.cons.inj tail).1])
    rw [split_of_isInner hp, split_of_isInner inner, h, piecesOf_append]

theorem components_join {p q : Path} (notEmpty : p.text ≠ "") (relative : q.isAbsolute = false) :
    (p.join q).components =
      p.components ++ (solid (piecesOf q.text.toList)).map Component.ofPiece := by
  have notNil : p.text.toList ≠ [] := by simpa using notEmpty
  by_cases slash : p.text.toList.getLast? = some '/'
  · have join : (p.join q).text.toList = p.text.toList ++ q.text.toList := by
      simp [join, relative, slash]
    obtain ⟨t, ht⟩ : ∃ t, p.text.toList = t ++ ['/'] := List.getLast?_eq_some_iff.1 slash
    rw [components_eq, components_eq]
    by_cases top : t = []
    · rw [split_of_slash (p := p) (s := []) (by rw [ht, top]; rfl),
        split_of_slash (s := q.text.toList) (by rw [join, ht, top]; rfl)]
      rfl
    · -- the path before its last slash has the same start
      have before : (String.ofList t) ≠ "" := by simpa [← String.toList_inj] using top
      rw [split_append_slash (p := ⟨String.ofList t⟩) (q := p) (s := []) before (by simp [ht]),
        split_append_slash (p := ⟨String.ofList t⟩) (s := q.text.toList) before (by simp [join, ht])]
      simp [piecesOf, splitSlash, solid, isVoid]
  · have join : (p.join q).text.toList = p.text.toList ++ '/' :: q.text.toList := by
      simp [join, relative, slash, notEmpty]
    rw [components_eq, split_append_slash notEmpty join, components_eq]
    simp [solid_append]

/-! ## Going down by names -/

/-- The text names an entry of a folder. -/
structure IsName (name : String) : Prop where
  notEmpty : name ≠ ""
  notHere : name ≠ "."
  notUp : name ≠ ".."
  noSlash : '/' ∉ name.toList

instance (name : String) : Decidable (IsName name) :=
  decidable_of_iff (name ≠ "" ∧ name ≠ "." ∧ name ≠ ".." ∧ '/' ∉ name.toList)
    ⟨fun h => ⟨h.1, h.2.1, h.2.2.1, h.2.2.2⟩,
      fun h => ⟨h.notEmpty, h.notHere, h.notUp, h.noSlash⟩⟩

/-- The path of what is found from `p` by going down through folders. -/
def under (p : Path) (names : List String) : Path :=
  names.foldl (fun p name => p.join ⟨name⟩) p

theorem under_cons (p : Path) (name : String) (names : List String) :
    p.under (name :: names) = (p.join ⟨name⟩).under names :=
  rfl

theorem under_append (p : Path) (names names' : List String) :
    p.under (names ++ names') = (p.under names).under names' :=
  List.foldl_append

theorem isAbsolute_of_not_mem {name : String} (h : '/' ∉ name.toList) :
    (⟨name⟩ : Path).isAbsolute = false := by
  unfold isAbsolute
  cases hs : name.toList with
  | nil => simp
  | cons c s =>
    rw [hs] at h
    simp only [List.mem_cons, not_or] at h
    simpa using Ne.symm h.1

theorem IsName.isAbsolute {name : String} (h : IsName name) : (⟨name⟩ : Path).isAbsolute = false :=
  isAbsolute_of_not_mem h.noSlash

theorem text_join_ne {p q : Path} (h : q.text ≠ "") : (p.join q).text ≠ "" := by
  unfold join
  split
  · exact h
  · split <;> simp [h]

theorem text_join_ne_left {p q : Path} (h : p.text ≠ "") : (p.join q).text ≠ "" := by
  unfold join
  split
  · next absolute =>
    intro empty
    simp [isAbsolute, empty] at absolute
  · split <;> simp [h]

theorem text_under_ne {p : Path} (h : p.text ≠ "") (names : List String) :
    (p.under names).text ≠ "" := by
  induction names generalizing p with
  | nil => exact h
  | cons name rest ih => exact ih (text_join_ne_left h)

theorem solid_name {name : String} (h : IsName name) : solid (piecesOf name.toList) = [name] := by
  rw [piecesOf_of_not_mem h.noSlash]
  simp [solid, isVoid, h.notEmpty, h.notHere]

theorem components_join_name {p : Path} {name : String} (notEmpty : p.text ≠ "") (h : IsName name) :
    (p.join ⟨name⟩).components = p.components ++ [.named name] := by
  rw [components_join notEmpty h.isAbsolute, solid_name h]
  simp [h.notUp, Component.ofPiece]

theorem components_under {p : Path} {names : List String} (notEmpty : p.text ≠ "")
    (h : ∀ name ∈ names, IsName name) :
    (p.under names).components = p.components ++ names.map .named := by
  induction names generalizing p with
  | nil => simp [under]
  | cons name rest ih =>
    have first := h name (by simp)
    rw [under_cons, ih (text_join_ne first.notEmpty) fun n hn => h n (by simp [hn]),
      components_join_name notEmpty first]
    simp

/-! ## Relative paths -/

theorem solid_pieces_of_relative {p : Path} (relative : p.isAbsolute = false) :
    solid p.split.pieces = solid (piecesOf p.text.toList) := by
  rcases text_cases p with ⟨s, h⟩ | h | ⟨s, h⟩ | h
  · simp [isAbsolute, h] at relative
  · rw [split_of_dot h, h]
    rfl
  · rw [split_of_dot_slash h, h]
    exact (congrArg solid (piecesOf_append [] s)).trans
      (congrArg solid (piecesOf_append ['.'] s)).symm
  · rw [split_of_isInner h]

/-- A path begins with a slash, with a dot, or with what counts. -/
theorem eq_of_mem_start? {p : Path} {c : Component} (h : c ∈ p.split.start?.toList) :
    c = .top ∨ c = .here := by
  rcases text_cases p with ⟨s, hp⟩ | hp | ⟨s, hp⟩ | hp
  · left; simpa [split_of_slash hp] using h
  · right; simpa [split_of_dot hp] using h
  · right; simpa [split_of_dot_slash hp] using h
  · simp [split_of_isInner hp] at h

theorem up_mem_components_iff {p : Path} (relative : p.isAbsolute = false) :
    .up ∈ p.components ↔ ".." ∈ solid (piecesOf p.text.toList) := by
  have noStart : Component.up ∉ p.split.start?.toList := fun h => by
    simpa using eq_of_mem_start? h
  rw [components_eq, solid_pieces_of_relative relative, List.mem_append, List.mem_map]
  constructor
  · rintro (start | ⟨piece, hpiece, eq⟩)
    · exact absurd start noStart
    · by_cases up : piece = ".."
      · exact up ▸ hpiece
      · simp [Component.ofPiece, up] at eq
  · intro up
    exact .inr ⟨"..", up, rfl⟩

theorem solid_ne_nil_of_named_mem {p : Path} {name : String} (relative : p.isAbsolute = false)
    (h : .named name ∈ p.components) : solid (piecesOf p.text.toList) ≠ [] := by
  have noStart : Component.named name ∉ p.split.start?.toList := fun h => by
    simpa using eq_of_mem_start? h
  intro none
  rw [components_eq, solid_pieces_of_relative relative, none, List.map_nil, List.append_nil] at h
  exact noStart h

theorem eq_of_map_ofPiece {pieces names : List String}
    (h : pieces.map Component.ofPiece = names.map .named) : pieces = names := by
  induction pieces generalizing names with
  | nil => simpa [eq_comm] using h
  | cons piece rest ih =>
    cases names with
    | nil => simp at h
    | cons name names =>
      obtain ⟨first, others⟩ := List.cons.inj h
      have : piece = name := by
        unfold Component.ofPiece at first
        split at first
        · cases first
        · exact Component.named.inj first
      rw [this, ih others]

/-- A path made of names alone is relative, and its pieces that count are the names. -/
theorem solid_of_components_eq {p : Path} {names : List String}
    (h : p.components = names.map .named) :
    p.isAbsolute = false ∧ solid (piecesOf p.text.toList) = names := by
  have noStart : p.split.start? = none := by
    rw [components_eq] at h
    cases start : p.split.start? with
    | none => rfl
    | some c =>
      have hc := eq_of_mem_start? (p := p) (c := c) (by simp [start])
      rw [start] at h
      cases names with
      | nil => simp at h
      | cons name names =>
        obtain rfl := (List.cons.inj h).1
        simp at hc
  have relative : p.isAbsolute = false := by
    rcases text_cases p with ⟨s, hp⟩ | hp | ⟨s, hp⟩ | hp
    · simp [split_of_slash hp] at noStart
    · simp [isAbsolute, hp]
    · simp [isAbsolute, hp]
    · simp only [isAbsolute, decide_eq_false_iff_not]
      intro slash
      obtain ⟨s, hs⟩ := List.head?_eq_some_iff.1 slash
      exact hp.1 s hs
  refine ⟨relative, ?_⟩
  rw [components_eq, noStart, solid_pieces_of_relative relative] at h
  exact eq_of_map_ofPiece h

theorem map_named_inj {names names' : List String}
    (h : names.map Component.named = names'.map Component.named) : names = names' :=
  (List.map_inj_right fun _ _ => Component.named.inj).1 h

/-! ## File names -/

/-- A name with an extension is made of its stem, which is not empty, a dot and the extension. -/
theorem cutName_of_extension {name extension : String} (h : (cutName name).2 = some extension) :
    name = (cutName name).1 ++ "." ++ extension ∧ (cutName name).1 ≠ "" := by
  have cut := List.takeWhile_append_dropWhile (p := (· != '.')) (l := name.toList.reverse)
  have dot := List.head?_dropWhile_not (· != '.') name.toList.reverse
  unfold cutName at h ⊢
  cases rest : name.toList.reverse.dropWhile (· != '.') with
  | nil => simp [rest] at h
  | cons c stem =>
    cases stem with
    | nil => simp [rest] at h
    | cons d stem =>
      obtain rfl : c = '.' := by simpa [rest] using dot
      simp only [rest, Option.some.injEq] at h ⊢
      rw [rest] at cut
      constructor
      · apply String.toList_inj.1
        rw [← List.reverse_inj, ← cut, ← h]
        simp
      · simp [← String.toList_inj]

/-- A name made of something, a dot and an extension is cut at that dot. -/
theorem cutName_append {stem extension : String} (notEmpty : stem ≠ "")
    (noDot : '.' ∉ extension.toList) :
    cutName (stem ++ "." ++ extension) = (stem, some extension) := by
  have reversed : (stem ++ "." ++ extension).toList.reverse =
      extension.toList.reverse ++ '.' :: stem.toList.reverse := by
    simp
  have run : ∀ c ∈ extension.toList.reverse, (c != '.') = true := by
    intro c hc
    simpa using fun dot : c = '.' => noDot (dot ▸ List.mem_reverse.1 hc)
  have stop : ∀ c ∈ ('.' :: stem.toList.reverse).head?, (c != '.') = false := by simp
  obtain ⟨c, rest, hstem⟩ : ∃ c rest, stem.toList.reverse = c :: rest :=
    List.exists_cons_of_ne_nil (by simpa using notEmpty)
  unfold cutName
  simp only [reversed, Text.takeWhile_run run stop, Text.dropWhile_run run stop]
  rw [hstem]
  simp [← hstem]

theorem fileName?_of_components {p : Path} {cs : List Component} {name : String}
    (h : p.components = cs ++ [.named name]) : p.fileName? = some name := by
  simp [fileName?, h]

/-- What is left of a name without its extension has no other characters than the name. -/
theorem mem_of_mem_cutName {name : String} {c : Char} (h : c ∈ (cutName name).1.toList) :
    c ∈ name.toList := by
  unfold cutName at h
  dsimp only at h
  split at h
  · exact h
  · exact h
  · next dot stem rest =>
    rw [String.toList_ofList, List.mem_reverse] at h
    have : c ∈ name.toList.reverse.dropWhile (· != '.') := by
      rw [rest]
      exact List.mem_cons_of_mem _ h
    exact List.mem_reverse.1 ((List.dropWhile_suffix _).subset this)

theorem slash_not_mem_stem (p : Path) : '/' ∉ p.stem.toList := by
  unfold stem stem? fileName?
  split
  · next name hlast =>
    intro slash
    have mem : Component.named name ∈ p.components := List.mem_of_getLast? hlast
    rw [components_eq, List.mem_append, List.mem_map] at mem
    rcases mem with start | ⟨piece, hpiece, eq⟩
    · rcases eq_of_mem_start? start with top | here
      · cases top
      · cases here
    · have noSlash := slash_not_mem_of_mem_pieces (List.mem_filter.1 hpiece).1
      unfold Component.ofPiece at eq
      split at eq
      · cases eq
      · obtain rfl := Component.named.inj eq
        exact noSlash (mem_of_mem_cutName slash)
  · simp

theorem stem_of_components {p : Path} {cs : List Component} {name : String}
    (h : p.components = cs ++ [.named name]) : p.stem = (cutName name).1 := by
  rw [stem, stem?, fileName?_of_components h]
  rfl

end Calcsheet.Path
