import Calcsheet.Proofs.Xml.Tags

/-!
# A text that goes on

Where an item ends does not depend on what follows it, as long as the next one begins with `<`. So
the items of a text that goes on with a tag are those of its first part and those from the tag on
(`scan_append`). The document type is the one item that is read with a look ahead, and its end
bounds how far that goes.
-/

namespace Calcsheet.Xml

/-! ## Marks -/

section Marks

variable {mark s before after : List Char}

theorem isSome_dropMark?_iff : (dropMark? mark s).isSome ↔ mark <+: s := by
  induction mark generalizing s with
  | nil => simp [dropMark?]
  | cons m mark ih =>
    cases s with
    | nil => simp [dropMark?]
    | cons c s =>
      by_cases same : m = c
      · simp [dropMark?, same, ih]
      · simp [dropMark?, same]

theorem dropMark?_append_right (h : dropMark? mark s = some after) (t : List Char) :
    dropMark? mark (s ++ t) = some (after ++ t) := by
  induction mark generalizing s with
  | nil =>
    obtain rfl := Option.some.inj h
    rfl
  | cons m mark ih =>
    cases s with
    | nil => cases h
    | cons c s =>
      simp only [dropMark?] at h
      split at h
      · next same =>
        rw [List.cons_append, dropMark?, if_pos same, ih h]
      · cases h

/-- The first mark in a text is the first one however the text goes on. -/
theorem cutAt?_append_right (h : cutAt? mark s = some (before, after)) (t : List Char) :
    cutAt? mark (s ++ t) = some (before, after ++ t) := by
  induction s generalizing before with
  | nil =>
    cases mark with
    | nil =>
      obtain ⟨rfl, rfl⟩ := Prod.mk.inj (Option.some.inj h)
      cases t <;> rfl
    | cons m mark => cases h
  | cons c s ih =>
    rw [cutAt?] at h
    split at h
    · next found =>
      obtain ⟨rfl, rfl⟩ := Prod.mk.inj (Option.some.inj h)
      rw [List.cons_append, cutAt?, ← List.cons_append, dropMark?_append_right found]
    · next notHere =>
      obtain ⟨⟨before', after'⟩, found, same⟩ := Option.map_eq_some_iff.1 h
      obtain ⟨rfl, rfl⟩ := Prod.mk.inj same
      -- the mark is in `s`, so there is no room for it to end only in `t`
      have notHere' : dropMark? mark (c :: s ++ t) = none := by
        rw [← Option.not_isSome_iff_eq_none, isSome_dropMark?_iff] at notHere ⊢
        intro begins
        have length := congrArg List.length (cutAt?_eq_some found)
        simp only [List.length_append] at length
        refine notHere (List.prefix_of_prefix_length_le begins (List.prefix_append ..) ?_)
        rw [List.length_cons]
        omega
      rw [List.cons_append, cutAt?, ← List.cons_append, notHere']
      simp only [ih found, Option.map_some]

theorem cutTag_append_right {quote? : Option Char} (h : cutTag quote? s = .ok (before, after))
    (t : List Char) : cutTag quote? (s ++ t) = .ok (before, after ++ t) := by
  induction s generalizing quote? before with
  | nil => cases quote? <;> cases h
  | cons c s ih =>
    simp only [List.cons_append, cutTag] at h ⊢
    split at h
    · obtain ⟨rfl, rfl⟩ := Prod.mk.inj (Except.ok.inj h)
      rfl
    · split at h
      · next found =>
        obtain ⟨rfl, rfl⟩ := Prod.mk.inj (Except.ok.inj h)
        simp only [ih found]
      · cases h

end Marks

/-! ## Document types -/

section Doctype

variable {state : DoctypeState} {skip : Nat} {c : Char} {s t before after : List Char}

/-- Whether a declaration is of some sort can be seen before it ends. -/
theorem isSome_dropMark?_append {mark : List Char} (noEnd : '>' ∉ mark) (ends : '>' ∈ s)
    (t : List Char) : (dropMark? mark (s ++ t)).isSome = (dropMark? mark s).isSome := by
  rw [Bool.eq_iff_iff, isSome_dropMark?_iff, isSome_dropMark?_iff]
  refine ⟨fun begins => ?_, fun begins => begins.trans (List.prefix_append ..)⟩
  rcases List.prefix_or_prefix_of_prefix begins (List.prefix_append s t) with h | h
  · exact h
  · exact absurd (h.subset ends) noEnd

theorem ofDeclaration_append (ends : '>' ∈ s) (t : List Char) :
    DoctypeState.ofDeclaration (s ++ t) = DoctypeState.ofDeclaration s := by
  have begins (mark : String) (noEnd : '>' ∉ mark.toList) :
      (dropMark? mark.toList (s ++ t)).isSome = (dropMark? mark.toList s).isSome :=
    isSome_dropMark?_append noEnd ends t
  simp only [DoctypeState.ofDeclaration, begins "?" (by decide), begins "!--" (by decide),
    begins "!ENTITY" (by decide), begins "!ATTLIST" (by decide), begins "!NOTATION" (by decide)]

theorem step_eq_none (h : state.step c s = none) : c = '>' ∧ state.step c (s ++ t) = none := by
  cases state with
  | head quote? =>
    cases quote? with
    | some quote => cases h
    | none =>
      simp only [DoctypeState.step] at h ⊢
      split at h
      · next last => exact ⟨last, if_pos last⟩
      · split at h <;> cases h
  | tail =>
    simp only [DoctypeState.step] at h ⊢
    split at h
    · next last => exact ⟨last, if_pos last⟩
    · cases h
  | declarations =>
    simp only [DoctypeState.step] at h
    split at h
    · cases h
    · split at h <;> cases h
  | quoting quote? => cases quote? <;> cases h
  | comment dashes =>
    simp only [DoctypeState.step] at h
    split at h <;> cases h
  | plain => cases h
  | instruction question => cases h

theorem step_append (ends : '>' ∈ s) (t : List Char) :
    state.step c (s ++ t) = state.step c s := by
  cases state <;> simp only [DoctypeState.step, ofDeclaration_append ends]

theorem cutDoctype?_append_right (h : cutDoctype? state skip s = some (before, after))
    (t : List Char) : '>' ∈ s ∧ cutDoctype? state skip (s ++ t) = some (before, after ++ t) := by
  induction s generalizing state skip before with
  | nil => cases h
  | cons c s ih =>
    cases skip with
    | succ skip =>
      obtain ⟨⟨before', after'⟩, found, same⟩ := Option.map_eq_some_iff.1 h
      obtain ⟨rfl, rfl⟩ := Prod.mk.inj same
      obtain ⟨ends, found⟩ := ih found
      refine ⟨List.mem_cons_of_mem c ends, ?_⟩
      rw [List.cons_append, cutDoctype?, found, Option.map_some]
    | zero =>
      rw [cutDoctype?] at h
      split at h
      · next last =>
        obtain ⟨rfl, rfl⟩ := Prod.mk.inj (Option.some.inj h)
        obtain ⟨rfl, last⟩ := step_eq_none (t := t) last
        refine ⟨List.mem_cons_self, ?_⟩
        rw [List.cons_append, cutDoctype?, last]
      · next goesOn =>
        obtain ⟨⟨before', after'⟩, found, same⟩ := Option.map_eq_some_iff.1 h
        obtain ⟨rfl, rfl⟩ := Prod.mk.inj same
        obtain ⟨ends, found⟩ := ih found
        refine ⟨List.mem_cons_of_mem c ends, ?_⟩
        rw [List.cons_append, cutDoctype?, step_append ends, goesOn]
        simp only [found, Option.map_some]

end Doctype

/-! ## Items -/

/-- An item is found whole, and the text after it goes on. -/
def Extends (lexer : List Char → Lexeme) : Prop :=
  ∀ ⦃s item rest⦄, lexer s = (item, rest) → (∀ fault, item ≠ .fault fault) →
    ∀ t, lexer (s ++ t) = (item, rest ++ t)

theorem not_faulty {fault : Fault} {item : Item} {rest : List Char}
    (h : faulty fault = (item, rest)) (whole : ∀ fault, item ≠ .fault fault) : False :=
  whole fault (Prod.mk.inj h).1.symm

theorem extends_lexClosing : Extends lexClosing := by
  intro s item rest h whole t
  unfold lexClosing at h ⊢
  split at h
  · next found =>
    obtain ⟨rfl, rfl⟩ := Prod.mk.inj h
    rw [cutTag_append_right found]
  · exact (not_faulty h whole).elim

theorem extends_lexOpening : Extends lexOpening := by
  intro s item rest h whole t
  unfold lexOpening at h ⊢
  split at h
  · next found =>
    rw [cutTag_append_right found]
    dsimp only
    split at h
    · next single =>
      obtain ⟨rfl, rfl⟩ := Prod.mk.inj h
      rw [if_pos single]
    · next notSingle =>
      obtain ⟨rfl, rfl⟩ := Prod.mk.inj h
      rw [if_neg notSingle]
  · exact (not_faulty h whole).elim

theorem extends_lexInstruction : Extends lexInstruction := by
  intro s item rest h whole t
  unfold lexInstruction at h ⊢
  split at h
  · exact (not_faulty h whole).elim
  next notEnd =>
  split at h
  · next found =>
    obtain ⟨rfl, rfl⟩ := Prod.mk.inj h
    have head : (s ++ t).head? = s.head? := by
      cases s with
      | nil => cases found
      | cons c s => rfl
    rw [head, if_neg notEnd, cutAt?_append_right found]
  · exact (not_faulty h whole).elim

theorem bind_cutAt?_append_right {first mark s before after : List Char}
    (h : (dropMark? first s).bind (cutAt? mark) = some (before, after)) (t : List Char) :
    (dropMark? first (s ++ t)).bind (cutAt? mark) = some (before, after ++ t) := by
  obtain ⟨rest, hrest, hcut⟩ := Option.bind_eq_some_iff.1 h
  rw [dropMark?_append_right hrest, Option.bind_some, cutAt?_append_right hcut]

theorem extends_lexComment : Extends lexComment := by
  intro s item rest h whole t
  unfold lexComment at h ⊢
  split at h
  · next found =>
    obtain ⟨rfl, rfl⟩ := Prod.mk.inj h
    rw [bind_cutAt?_append_right found]
  · exact (not_faulty h whole).elim

theorem extends_lexCData : Extends lexCData := by
  intro s item rest h whole t
  unfold lexCData at h ⊢
  split at h
  · next found =>
    obtain ⟨rfl, rfl⟩ := Prod.mk.inj h
    rw [bind_cutAt?_append_right found]
  · exact (not_faulty h whole).elim

theorem extends_lexDoctype : Extends lexDoctype := by
  intro s item rest h whole t
  unfold lexDoctype at h ⊢
  split at h
  · exact (not_faulty h whole).elim
  next found =>
  rw [(cutDoctype?_append_right found t).2]
  dsimp only
  split at h
  · exact (not_faulty h whole).elim
  split at h
  · exact (not_faulty h whole).elim
  · next named =>
    obtain ⟨rfl, rfl⟩ := Prod.mk.inj h
    rw [if_neg named]

theorem extends_lexBang : Extends lexBang := by
  intro s item rest h whole t
  unfold lexBang at h
  split at h
  · exact extends_lexComment h whole t
  · exact extends_lexCData h whole t
  · exact extends_lexDoctype h whole t
  · exact extends_lexDoctype h whole t
  · exact (not_faulty h whole).elim

theorem extends_lexMarkup : Extends lexMarkup := by
  intro s item rest h whole t
  unfold lexMarkup at h
  split at h
  · exact (not_faulty h whole).elim
  · exact extends_lexClosing h whole t
  · exact extends_lexInstruction h whole t
  · exact extends_lexBang h whole t
  · next notEmpty slash question bang =>
    obtain ⟨c, s, rfl⟩ := List.exists_cons_of_ne_nil notEmpty
    have slash : c ≠ '/' := fun hc => slash s (by rw [hc])
    have question : c ≠ '?' := fun hc => question s (by rw [hc])
    have bang : c ≠ '!' := fun hc => bang s (by rw [hc])
    rw [List.cons_append, lexMarkup_of_ne slash question bang]
    exact extends_lexOpening h whole t

theorem extends_lexReference : Extends lexReference := by
  intro s item rest h whole t
  unfold lexReference at h ⊢
  dsimp only at h ⊢
  split at h
  · next rest' found =>
    obtain ⟨rfl, rfl⟩ := Prod.mk.inj h
    have stop : ∀ c ∈ (s.dropWhile (fun c => c != ';' && c != '&' && c != '<') ++ t).head?,
        (c != ';' && c != '&' && c != '<') = false := by
      simp [found]
    obtain ⟨name, after⟩ := Text.takeWhile_append_right stop
    rw [name, after, found]
    rfl
  · exact (not_faulty h whole).elim

theorem lex_append {c : Char} {s rest : List Char} {item : Item} (h : lex c s = (item, rest))
    (whole : ∀ fault, item ≠ .fault fault) (t : List Char) :
    lex c (s ++ '<' :: t) = (item, rest ++ '<' :: t) := by
  unfold lex at h ⊢
  split at h
  · next less =>
    rw [if_pos less]
    exact extends_lexMarkup h whole _
  next notLess =>
  rw [if_neg notLess]
  split at h
  · next ampersand =>
    rw [if_pos ampersand]
    exact extends_lexReference h whole _
  next notAmpersand =>
  rw [if_neg notAmpersand]
  obtain ⟨rfl, rfl⟩ := Prod.mk.inj h
  have stop : ∀ d ∈ (s.dropWhile (fun c => c != '<' && c != '&') ++ '<' :: t).head?,
      (d != '<' && d != '&') = false := by
    intro d hd
    cases dropped : s.dropWhile (fun c => c != '<' && c != '&') with
    | nil =>
      obtain rfl : '<' = d := by simpa [dropped] using hd
      rfl
    | cons e rest =>
      have ends := List.head?_dropWhile_not (fun c => c != '<' && c != '&') s
      obtain rfl : e = d := by simpa [dropped] using hd
      simpa [dropped] using ends
  obtain ⟨text, after⟩ := Text.takeWhile_append_right stop
  dsimp only
  rw [text, after]

/-- The items of a text that goes on with a tag. -/
theorem scan_append {s : List Char} (whole : ∀ item ∈ scan s, ∀ fault, item ≠ .fault fault)
    (t : List Char) : scan (s ++ '<' :: t) = scan s ++ scan ('<' :: t) := by
  induction s using scan.induct with
  | case1 =>
    rw [scan]
    rfl
  | case2 c s ih =>
    rw [scan] at whole
    obtain ⟨first, later⟩ := List.forall_mem_cons.1 whole
    have next : lex c (s ++ '<' :: t) = ((lex c s).1, (lex c s).2 ++ '<' :: t) :=
      lex_append (Prod.eta _).symm first t
    conv => lhs; rw [List.cons_append, scan, next]
    conv => rhs; rw [scan]
    rw [List.cons_append, ← ih later]

end Calcsheet.Xml
