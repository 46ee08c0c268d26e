import Calcsheet.Proofs.Code.Parts

/-!
# The words of an expression

The words of a fragment are the names, numbers and operators in it; whatever else is in its text is
punctuation (`Fragment.avoids_render_iff`). The words of generated code are the names and numbers of
the worksheet, as they are spelled in code, and a few words of the generator's own (`worded_value`).
So characters that are neither in the worksheet nor in those words do not come into the code
(`Worded.avoids`).
-/

namespace Calcsheet

/-- None of the characters is in the text. -/
def Text.avoids (marks : List Char) (s : String) : Bool :=
  s.toList.all fun c => c ∉ marks

namespace Text

variable {marks : List Char}

theorem avoids_iff {s : String} : avoids marks s = true ↔ ∀ c ∈ s.toList, c ∉ marks := by
  simp [avoids]

@[simp] theorem avoids_append (s t : String) :
    avoids marks (s ++ t) = (avoids marks s && avoids marks t) := by
  simp [avoids]

theorem avoids_joinWith_iff {sep : String} (hsep : avoids marks sep = true) {ss : List String} :
    avoids marks (joinWith sep ss) = true ↔ ∀ s ∈ ss, avoids marks s = true := by
  induction ss with
  | nil => simp [joinWith, avoids]
  | cons s rest ih =>
    cases rest with
    | nil => simp [joinWith]
    | cons t rest =>
      rw [joinWith_cons _ (List.cons_ne_nil t rest), avoids_append, avoids_append, hsep,
        Bool.and_true, Bool.and_eq_true, ih, List.forall_mem_cons (a := s)]

end Text

namespace Code

open Text (avoids avoids_append)

variable {marks : List Char}

/-! ## Fragments -/

namespace Fragment

/-- The names, numbers and operators in a fragment. -/
def words (f : Fragment) : List String :=
  f.subfragments.filterMap ownText?

/-- None of the characters is in a word. -/
def Avoids (marks : List Char) (f : Fragment) : Prop :=
  ∀ word ∈ f.words, avoids marks word = true

instance (f : Fragment) : Decidable (f.Avoids marks) :=
  inferInstanceAs (Decidable (∀ word ∈ f.words, avoids marks word = true))

theorem words_eq (f : Fragment) : f.words = f.ownText?.toList ++ f.operands.flatMap words := by
  rw [words, subfragments_eq, List.filterMap_cons, subfragmentsOf_eq, List.filterMap_flatMap]
  cases f.ownText? <;> rfl

/-- What holds of the word that a fragment brings in and of those in its operands holds of all. -/
theorem forall_mem_words_iff {P : String → Prop} {f : Fragment} :
    (∀ word ∈ f.words, P word) ↔
      (∀ word ∈ f.ownText?, P word) ∧ ∀ c ∈ f.operands, ∀ word ∈ c.words, P word := by
  rw [words_eq]
  simp only [List.mem_append, Option.mem_toList, List.mem_flatMap]
  constructor
  · intro h
    exact ⟨fun word own => h word (.inl own), fun c hc word hword => h word (.inr ⟨c, hc, hword⟩)⟩
  · rintro ⟨own, inner⟩ word (h | ⟨c, hc, h⟩)
    · exact own word h
    · exact inner c hc word h

/-- The characters that a fragment brings in around its words. -/
def punctuation : List Char :=
  "()[], -1.0*new Complex?:".toList

/-- The text of a fragment has a character that is no punctuation only if a word has it. -/
theorem avoids_render_iff (apart : ∀ c ∈ punctuation, c ∉ marks) {f : Fragment} :
    avoids marks f.render = true ↔ f.Avoids marks := by
  have fixed {s : String} (h : s.toList.all (· ∈ punctuation) = true) : avoids marks s = true :=
    Text.avoids_iff.2 fun c hc => apart c (by simpa using List.all_eq_true.1 h c hc)
  have row (fs : List Fragment) :
      avoids marks (renderList fs) = true ↔ ∀ f ∈ fs, avoids marks f.render = true := by
    have comma : avoids marks ", " = true := fixed (by decide)
    rw [renderList_eq, Text.avoids_joinWith_iff comma, List.forall_mem_map]
  induction f using inductionOperands with
  | step f inner =>
    rw [Avoids, forall_mem_words_iff]
    have operands : (∀ c ∈ f.operands, ∀ word ∈ c.words, avoids marks word = true) ↔
        ∀ c ∈ f.operands, avoids marks c.render = true :=
      forall₂_congr fun c hc => (inner c hc).symm
    rw [operands]
    have around : avoids marks "(" = true ∧ avoids marks ")" = true :=
      ⟨fixed (by decide), fixed (by decide)⟩
    cases f with
    | empty =>
      have text : Fragment.empty.render = "" := rfl
      simp [text, ownText?, Fragment.operands, avoids]
    | atom text => simp [ownText?, Fragment.operands]
    | binary operator left right =>
      have blank : avoids marks " " = true := fixed (by decide)
      simp [ownText?, Fragment.operands, around, blank, and_assoc, and_left_comm]
    | call function arguments => simp [ownText?, Fragment.operands, around, row]
    | group inner => simp [ownText?, Fragment.operands, around]
    | index target position =>
      have brackets : avoids marks "[" = true ∧ avoids marks "]" = true :=
        ⟨fixed (by decide), fixed (by decide)⟩
      simp [ownText?, Fragment.operands, brackets]
    | negate operand =>
      have minus : avoids marks "(-1.0 * (" = true ∧ avoids marks "))" = true :=
        ⟨fixed (by decide), fixed (by decide)⟩
      simp [ownText?, Fragment.operands, minus]
    | complex re im =>
      have new : avoids marks "new Complex(" = true ∧ avoids marks ", " = true :=
        ⟨fixed (by decide), fixed (by decide)⟩
      simp [ownText?, Fragment.operands, around, new]
    | conditional condition whenTrue whenFalse =>
      have choice : avoids marks " ? (" = true ∧ avoids marks ") : " = true :=
        ⟨fixed (by decide), fixed (by decide)⟩
      simp [ownText?, Fragment.operands, around, choice, and_assoc]
    | list items => exact (row items).trans (by simp [ownText?, Fragment.operands])

end Fragment

/-! ## Elements -/

/-- The words that code has of its own, and what is put to names and numbers. -/
def ownWords : List String :=
  ["_", "i", "Math.PI", naturalLog, decimalLog, "Math.E", "Math.Sqrt", "Math.Abs", "Math.Pow", "1.0",
   "Solve", "Vector.Sum"] ++ BinaryOp.all.map BinaryOp.symbol

/-- The word is one of these or the spelling of a name or number at or below the element. -/
inductive WordOf (e : Element) : String → Prop
  | own {word} (h : word ∈ ownWords) : WordOf e word
  | number {d} (below : d = e ∨ d ∈ e.descendants) (kind : d.kind = .real ∨ d.kind = .imag) :
      WordOf e d.text
  | imaginary {d} (below : d = e ∨ d ∈ e.descendants) (kind : d.kind = .imag) :
      WordOf e (d.text ++ "i")
  | name {d} (below : d = e ∨ d ∈ e.descendants) (kind : d.kind = .id) : WordOf e (identifier d)

theorem WordOf.above {c e : Element} {word : String} (h : WordOf c word)
    (hc : c ∈ e.descendants) : WordOf e word := by
  have up {d : Element} (below : d = c ∨ d ∈ c.descendants) : d = e ∨ d ∈ e.descendants := by
    rcases below with rfl | below
    · exact .inr hc
    · exact .inr (Element.mem_descendants_trans below hc)
  cases h with
  | own h => exact .own h
  | number below kind => exact .number (up below) kind
  | imaginary below kind => exact .imaginary (up below) kind
  | name below kind => exact .name (up below) kind

theorem symbol_mem_ownWords (op : BinaryOp) : op.symbol ∈ ownWords := by
  cases op <;> decide

/-- All words of the fragment are words of the element. -/
def Worded (e : Element) (f : Fragment) : Prop :=
  ∀ word ∈ f.words, WordOf e word

namespace Worded

variable {e : Element} {f : Fragment} {fs : List Fragment}

theorem above {c : Element} (h : Worded c f) (hc : c ∈ e.descendants) : Worded e f :=
  fun word hword => (h word hword).above hc

theorem intro (own : ∀ word ∈ f.ownText?, WordOf e word) (inner : ∀ c ∈ f.operands, Worded e c) :
    Worded e f :=
  Fragment.forall_mem_words_iff.2 ⟨own, inner⟩

theorem atom {text : String} (h : WordOf e text) : Worded e (.atom text) :=
  intro (by rintro _ ⟨⟩; exact h) (by simp [Fragment.operands])

theorem callOf {name : String} (hname : WordOf e name) (hfs : ∀ c ∈ fs, Worded e c) :
    Worded e (callOf name fs) := by
  have call : Worded e (.call name fs) := intro (by rintro _ ⟨⟩; exact hname) hfs
  exact intro (by simp [Fragment.ownText?, Code.callOf])
    (by simpa [Fragment.operands, Code.callOf] using call)

theorem binary (op : BinaryOp) {a b : Fragment} (ha : Worded e a) (hb : Worded e b) :
    Worded e (.binary op.symbol a b) :=
  intro (by rintro _ ⟨⟩; exact .own (symbol_mem_ownWords op)) (by simp [Fragment.operands, ha, hb])

theorem complex {a b : Fragment} (ha : Worded e a) (hb : Worded e b) : Worded e (.complex a b) :=
  intro (by simp [Fragment.ownText?]) (by simp [Fragment.operands, ha, hb])

theorem sumOf (lhs rhs : Element) {a b : Fragment} (ha : Worded e a) (hb : Worded e b) :
    Worded e (sumOf lhs rhs a b) := by
  unfold Code.sumOf
  split
  · split
    · exact complex ha hb
    · exact complex hb ha
    · exact binary .plus ha hb
  · exact binary .plus ha hb

end Worded

theorem wordOf_builtin? {e : Element} {kind : Kind} {name : String} (h : builtin? kind = some name) :
    WordOf e name := by
  unfold builtin? at h
  split at h <;> cases h <;> exact .own (by decide)

theorem wordOf_nameOnly? {e : Element} {kind : Kind} {name : String}
    (h : nameOnly? kind = some name) : WordOf e name := by
  unfold nameOnly? at h
  split at h <;> cases h <;> exact .own (by decide)

theorem wordOf_namedOperand {e : Element} {function operand : String} (h : WordOf e operand) :
    WordOf e (namedOperand function operand) := by
  unfold namedOperand
  split
  · exact .own (by decide)
  · exact h

theorem worded_of_valueRule {e : Element} {f : Fragment}
    (below : ∀ d ∈ e.descendants, ∀ g, value d = .ok g → Worded d g) (h : ValueRule e f) :
    Worded e f := by
  have inside {d : Element} (hd : d ∈ e.descendants) {g : Fragment} (ok : value d = .ok g) :
      Worded e g :=
    (below d hd g ok).above hd
  have child {c : Element} (hc : c ∈ e.children) {g : Fragment} (ok : value c = .ok g) :
      Worded e g :=
    inside (Element.mem_descendants_of_mem_children hc) ok
  have items {c : Element} (hc : c ∈ e.children) {fs : List Fragment}
      (ok : sequenceItems c.children = .ok fs) : ∀ g ∈ fs, Worded e g :=
    sequenceItems_induction (fun d hd _ _ ok =>
      inside (Element.mem_descendants_of_mem_children_children hc hd) ok) ok
  have name {c : Element} (hc : c ∈ e.children) (kind : c.kind = .id) : WordOf e (identifier c) :=
    .name (.inr (Element.mem_descendants_of_mem_children hc)) kind
  cases h with
  | real kind => exact .atom (.number (.inl rfl) (.inl kind))
  | id kind => exact .atom (.name (.inl rfl) kind)
  | imag kind => exact .atom (.imaginary (.inl rfl) kind)
  | parens kind children _ ok => exact child (by simp [children]) ok
  | sequence kind ok =>
    exact .intro (by simp [Fragment.ownText?])
      (sequenceItems_induction (fun c hc _ _ => child hc) ok)
  | nothing => exact .intro (by simp [Fragment.ownText?]) (by simp [Fragment.operands])
  | named kind children function operand =>
    refine .callOf (name (by simp [children]) function) fun c hc => ?_
    obtain rfl := List.mem_singleton.1 hc
    exact .atom (wordOf_namedOperand (name (by simp [children]) operand))
  | called kind children function _ ok =>
    refine .callOf (name (by simp [children]) function) fun c hc => ?_
    obtain rfl := List.mem_singleton.1 hc
    exact child (by simp [children]) ok
  | chosen kind children _ _ _ ok =>
    exact .intro (by simp [Fragment.ownText?]) (items (by simp [children]) ok)
  | listed kind children function _ _ ok =>
    exact .callOf (name (by simp [children]) function) (items (by simp [children]) ok)
  | builtin kind children function _ ok =>
    refine .callOf (wordOf_builtin? function) fun c hc => ?_
    obtain rfl := List.mem_singleton.1 hc
    exact child (by simp [children]) ok
  | nameOnly kind children function operand =>
    refine .callOf (wordOf_nameOnly? function) fun c hc => ?_
    obtain rfl := List.mem_singleton.1 hc
    exact .atom (name (by simp [children]) operand)
  | negated kind children _ _ ok =>
    have operand := child (by simp [children]) ok
    exact .intro (by simp [Fragment.ownText?]) (by simpa [Fragment.operands] using operand)
  | sum kind children _ left right =>
    exact .sumOf _ _ (child (by simp [children]) left) (child (by simp [children]) right)
  | operation kind children _ _ left right =>
    exact .binary _ (child (by simp [children]) left) (child (by simp [children]) right)
  | root kind children _ left right =>
    have one : Worded e (.atom "1.0") := .atom (.own (by decide))
    refine .callOf (.own (by decide)) fun c hc => ?_
    rcases List.mem_pair.1 hc with rfl | rfl
    · exact child (by simp [children]) right
    · exact .binary .div one (child (by simp [children]) left)
  | power kind children _ left right =>
    refine .callOf (.own (by decide)) fun c hc => ?_
    rcases List.mem_pair.1 hc with rfl | rfl
    · exact child (by simp [children]) left
    · exact child (by simp [children]) right
  | @indexed _ _ _ a b kind children _ left right =>
    have target := child (by simp [children]) left
    have position := child (by simp [children]) right
    have index : Worded e (.index a b) :=
      .intro (by simp [Fragment.ownText?]) (by simp [Fragment.operands, target, position])
    exact .intro (by simp [Fragment.ownText?]) (by simpa [Fragment.operands] using index)

/-- All words of the code of an element come from the element or are words that code has of its
own. -/
theorem worded_value {e : Element} {f : Fragment} (h : value e = .ok f) : Worded e f := by
  induction e using Element.inductionBelow generalizing f with
  | step e below => exact worded_of_valueRule (fun d hd _ => below d hd) (value_eq_ok_iff.1 h)

/-! ## Characters that are not in the worksheet -/

/-- None of the characters is in the element's text, if it is a name or a number, nor in the
subscript of a name. -/
def avoidsHere (marks : List Char) (e : Element) : Bool :=
  match e.kind with
  | .real | .imag => avoids marks e.text
  | .id => avoids marks e.text && (e.attributes.get? "subscript").all (avoids marks)
  | _ => true

/-- None of the characters is in a name or number at or below the element. -/
def Avoids (marks : List Char) (e : Element) : Prop :=
  ∀ d ∈ e :: e.descendants, avoidsHere marks d = true

theorem Avoids.child {c e : Element} (h : Avoids marks e) (hc : c ∈ e.children) :
    Avoids marks c := by
  intro d hd
  refine h d (List.mem_cons_of_mem _ (Element.mem_descendants_iff.2 ⟨c, hc, ?_⟩))
  exact List.mem_cons.1 hd

section Own

variable (own : ∀ word ∈ ownWords, avoids marks word = true)
include own

theorem avoids_identifier {d : Element} (kind : d.kind = .id) (h : avoidsHere marks d = true) :
    avoids marks (identifier d) = true := by
  simp only [avoidsHere, kind, Bool.and_eq_true] at h
  obtain ⟨text, subscript⟩ := h
  -- some names stand for others, which are words of the code's own
  have known {name : String} (h : avoids marks name = true) :
      avoids marks (if name = "π" then "Math.PI" else if name = "ln" then naturalLog
        else if name = "log" then decimalLog else name) = true := by
    split_ifs
    · exact own _ (by decide)
    · exact own _ (by decide)
    · exact own _ (by decide)
    · exact h
  unfold identifier identifierOf
  cases hs : d.attributes.get? "subscript" with
  | none => exact known text
  | some s =>
    have score : avoids marks "_" = true := own _ (by decide)
    rw [hs, Option.all_some] at subscript
    exact known (by rw [avoids_append, avoids_append, text, score, subscript]; rfl)

theorem WordOf.avoids {e : Element} {word : String} (h : WordOf e word) (clean : Avoids marks e) :
    avoids marks word = true := by
  have here {d : Element} (below : d = e ∨ d ∈ e.descendants) : avoidsHere marks d = true :=
    clean d (List.mem_cons.2 below)
  cases h with
  | own h => exact own _ h
  | number below kind =>
    have text := here below
    rcases kind with kind | kind <;> simpa [avoidsHere, kind] using text
  | imaginary below kind =>
    have text := here below
    simp only [avoidsHere, kind] at text
    rw [avoids_append, text, own "i" (by decide)]
    rfl
  | name below kind => exact avoids_identifier own kind (here below)

theorem Worded.avoids {e : Element} {f : Fragment} (h : Worded e f) (clean : Avoids marks e) :
    f.Avoids marks :=
  fun word hword => (h word hword).avoids own clean

end Own

end Code

end Calcsheet
