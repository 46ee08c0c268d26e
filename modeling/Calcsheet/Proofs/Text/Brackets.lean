import Calcsheet.Text.Basic

/-!
# Nested brackets

A word of brackets is `Nested` if it is empty, a pair around a nested word, or one nested word after
another. A text is read with a stack of the brackets that are open (`Bracket.after`): what opens
goes on top, and what closes has to be on top. A text is `Balanced` if it leaves every stack as it
was; then its brackets are a nested word (`Balanced.nested`).
-/

namespace Calcsheet.Text

/-- A kind of bracket. -/
inductive Bracket where
  | round | square | curly
  deriving DecidableEq, Repr

namespace Bracket

/-- The character that opens. -/
def opening : Bracket → Char
  | round => '('
  | square => '['
  | curly => '\x7b'

/-- The character that closes. -/
def closing : Bracket → Char
  | round => ')'
  | square => ']'
  | curly => '\x7d'

/-- All kinds. -/
def all : List Bracket :=
  [round, square, curly]

/-- What a character opens. -/
def opened? (c : Char) : Option Bracket :=
  all.find? fun b => b.opening = c

/-- What a character closes. -/
def closed? (c : Char) : Option Bracket :=
  all.find? fun b => b.closing = c

/-- The brackets that are open after a character, innermost first. What closes has to be the
innermost. -/
def step (stack : List Bracket) (c : Char) : Option (List Bracket) :=
  match opened? c, closed? c with
  | some b, _ => some (b :: stack)
  | none, none => some stack
  | none, some b =>
    match stack with
    | top :: outer => if top = b then some outer else none
    | [] => none

/-- The brackets that are open after a text, given those that are open before it. -/
def after (stack : List Bracket) (s : String) : Option (List Bracket) :=
  s.toList.foldlM step stack

end Bracket

/-- The character opens or closes. -/
def isBracket (c : Char) : Bool :=
  (Bracket.opened? c).isSome || (Bracket.closed? c).isSome

/-- The brackets of a text, in order. -/
def brackets (s : String) : List Char :=
  s.toList.filter isBracket

/-- There is no bracket in the text. -/
def isPlain (s : String) : Bool :=
  s.toList.all fun c => !isBracket c

/-- Every bracket is closed, the inner ones before the outer ones. -/
inductive Nested : List Char → Prop
  | nil : Nested []
  | pair (b : Bracket) {w : List Char} (inner : Nested w) : Nested (b.opening :: (w ++ [b.closing]))
  | append {v w : List Char} (first : Nested v) (second : Nested w) : Nested (v ++ w)

/-- The text closes what it opens and nothing else. -/
def Balanced (s : String) : Prop :=
  ∀ stack, Bracket.after stack s = some stack

/-! ## Words -/

/-- A pair may come in anywhere. -/
theorem Nested.insert {u v : List Char} (h : Nested (u ++ v)) (b : Bracket) :
    Nested (u ++ b.opening :: b.closing :: v) := by
  have alone : Nested [b.opening, b.closing] := .pair b .nil
  generalize whole : u ++ v = w at h
  induction h generalizing u v with
  | nil =>
    obtain ⟨rfl, rfl⟩ := List.append_eq_nil_iff.1 whole
    exact alone
  | @pair b' w inner ih =>
    cases u with
    | nil =>
      obtain rfl : v = _ := whole
      exact alone.append (.pair b' inner)
    | cons c u =>
      obtain ⟨rfl, tail⟩ : c = b'.opening ∧ u ++ v = w ++ [b'.closing] := List.cons.inj whole
      rcases List.eq_nil_or_concat v with rfl | ⟨v, last, rfl⟩
      · rw [← List.append_nil u, tail]
        exact (Nested.pair b' inner).append alone
      · rw [List.concat_eq_append, ← List.append_assoc] at tail
        obtain ⟨inside, closing⟩ := List.append_inj' tail rfl
        rw [List.concat_eq_append, (List.cons.inj closing).1]
        simpa using Nested.pair b' (ih inside)
  | append first second ihFirst ihSecond =>
    rcases List.append_eq_append_iff.1 whole with ⟨rest, rfl, rfl⟩ | ⟨rest, rfl, rfl⟩
    · simpa using (ihFirst rfl).append second
    · simpa using first.append (ihSecond rfl)

namespace Bracket

theorem opening_of_opened? {c : Char} {b : Bracket} (h : opened? c = some b) : b.opening = c := by
  simpa using List.find?_some h

theorem closing_of_closed? {c : Char} {b : Bracket} (h : closed? c = some b) : b.closing = c := by
  simpa using List.find?_some h

/-- A word of brackets that closes all that is open completes the brackets that are open. -/
theorem nested_of_foldlM {w : List Char} (only : ∀ c ∈ w, isBracket c = true) {stack : List Bracket}
    (h : w.foldlM step stack = some []) : Nested ((stack.map opening).reverse ++ w) := by
  induction w generalizing stack with
  | nil =>
    obtain rfl : stack = [] := Option.some.inj h
    exact .nil
  | cons c w ih =>
    obtain ⟨hc, only⟩ := List.forall_mem_cons.1 only
    obtain ⟨stack', hstep, hw⟩ := Option.bind_eq_some_iff.1 h
    have later := ih only hw
    unfold step at hstep
    split at hstep
    · next b _ hb =>
      obtain rfl := Option.some.inj hstep
      simpa [opening_of_opened? hb] using later
    · next hopen hclose => simp [isBracket, hopen, hclose] at hc
    · next b _ hb =>
      split at hstep
      · next top outer =>
        split at hstep
        · next same =>
          obtain rfl := Option.some.inj hstep
          subst same
          simpa [closing_of_closed? hb] using later.insert top
        · cases hstep
      · cases hstep

theorem step_of_not_isBracket {c : Char} (h : isBracket c = false) (stack : List Bracket) :
    step stack c = some stack := by
  obtain ⟨hopen, hclose⟩ : opened? c = none ∧ closed? c = none := by
    simpa [isBracket] using h
  simp [step, hopen, hclose]

theorem foldlM_filter (stack : List Bracket) (w : List Char) :
    (w.filter isBracket).foldlM step stack = w.foldlM step stack := by
  induction w generalizing stack with
  | nil => rfl
  | cons c w ih =>
    by_cases hc : isBracket c = true
    · rw [List.filter_cons_of_pos hc, List.foldlM_cons, List.foldlM_cons]
      exact congrArg _ (funext fun stack => ih stack)
    · rw [List.filter_cons_of_neg hc, List.foldlM_cons,
        step_of_not_isBracket (by simpa using hc), ih]
      rfl

theorem after_append (stack : List Bracket) (s t : String) :
    after stack (s ++ t) = (after stack s).bind fun stack => after stack t := by
  simp [after]

end Bracket

/-! ## Texts -/

theorem Balanced.after {s : String} (h : Balanced s) (stack : List Bracket) :
    Bracket.after stack s = some stack :=
  h stack

theorem Balanced.nested {s : String} (h : Balanced s) : Nested (brackets s) := by
  have read : (brackets s).foldlM Bracket.step [] = some [] := by
    rw [brackets, Bracket.foldlM_filter]
    exact h []
  exact Bracket.nested_of_foldlM (fun c hc => (List.mem_filter.1 hc).2) read

theorem Balanced.append {s t : String} (hs : Balanced s) (ht : Balanced t) : Balanced (s ++ t) := by
  intro stack
  rw [Bracket.after_append, hs, Option.bind_some, ht]

theorem balanced_of_isPlain {s : String} (h : isPlain s = true) : Balanced s := by
  intro stack
  have none : s.toList.filter isBracket = [] := by
    simpa [isPlain] using h
  rw [Bracket.after, ← Bracket.foldlM_filter, none]
  rfl

theorem balanced_empty : Balanced "" :=
  fun _ => rfl

theorem balanced_joinWith {sep : String} {ss : List String} (hsep : Balanced sep)
    (h : ∀ s ∈ ss, Balanced s) : Balanced (joinWith sep ss) := by
  induction ss with
  | nil => exact balanced_empty
  | cons s rest ih =>
    obtain ⟨first, others⟩ := List.forall_mem_cons.1 h
    cases rest with
    | nil => exact first
    | cons t rest =>
      rw [joinWith_cons _ (List.cons_ne_nil t rest)]
      exact (first.append hsep).append (ih others)

theorem isBracket_of_isDigit {c : Char} (h : c.isDigit = true) : isBracket c = false := by
  have ne (b : Bracket) : b.opening ≠ c ∧ b.closing ≠ c := by
    constructor <;> rintro rfl <;> cases b <;> exact absurd h (by decide)
  simp [isBracket, Bracket.opened?, Bracket.closed?, ne]

theorem balanced_spaces (n : Nat) : Balanced (spaces n) := by
  refine balanced_of_isPlain (List.all_eq_true.2 fun c hc => ?_)
  rw [spaces, String.toList_ofList] at hc
  rw [List.eq_of_mem_replicate hc]
  rfl

end Calcsheet.Text
