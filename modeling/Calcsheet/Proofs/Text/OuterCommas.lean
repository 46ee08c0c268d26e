import Calcsheet.Text.Basic
import Mathlib.Tactic.SplitIfs

/-!
# Cutting a text at its outer commas

A text is read with the number of parentheses and square brackets that are open, and it is cut at
every comma with a space behind it where none is (`outerPieces`). Joined again, the pieces are the
text (`joinWith_outerPieces`). `Leads` says that a text is not cut and how many brackets it opens or
closes, and `Cuts` into what a text is cut outside all brackets. Both are about a text that more
text follows, so they can be put together along a concatenation.
-/

namespace Calcsheet.Text

/-- The brackets that are open after a character. -/
def depthAfter (depth : Nat) (c : Char) : Nat :=
  if c = '(' ∨ c = '[' then depth + 1
  else if c = ')' ∨ c = ']' then depth - 1
  else depth

/-- Text in front of the first piece. -/
def beforeFirst (s : String) : List String → List String
  | [] => [s]
  | piece :: pieces => (s ++ piece) :: pieces

/-- The pieces of a text that begins with `depth` brackets open. -/
def cut : Nat → List Char → List String
  | _, [] => [""]
  | 0, ',' :: ' ' :: cs => "" :: cut 0 cs
  | depth, c :: cs => beforeFirst (String.singleton c) (cut (depthAfter depth c) cs)

/-- The pieces of a text between the commas outside all brackets. -/
def outerPieces (s : String) : List String :=
  cut 0 s.toList

/-- The characters that matter for cutting. -/
def cutMarks : List Char :=
  [',', '(', ')', '[', ']']

/-- The text has none of them in it. -/
def isUnmarked (s : String) : Bool :=
  s.toList.all fun c => c ∉ cutMarks

/-- The text leads from `before` open brackets to `after` and is not cut on the way, with any number
of brackets open besides. -/
def Leads (before after : Nat) (s : String) : Prop :=
  ∀ depth rest, cut (depth + before) (s.toList ++ rest) = beforeFirst s (cut (depth + after) rest)

/-- Outside all brackets the text is cut into `done` and `last`, and `last` goes on in whatever
follows. -/
def Cuts (s : String) (done : List String) (last : String) : Prop :=
  ∀ rest, cut 0 (s.toList ++ rest) = done ++ beforeFirst last (cut 0 rest)

/-! ## One character -/

theorem cut_comma (cs : List Char) : cut 0 (',' :: ' ' :: cs) = "" :: cut 0 cs :=
  rfl

theorem cut_cons {depth : Nat} {c : Char} (h : c ≠ ',' ∨ 0 < depth) (cs : List Char) :
    cut depth (c :: cs) = beforeFirst (String.singleton c) (cut (depthAfter depth c) cs) := by
  rw [cut]
  rintro rest rfl rfl rfl
  simp at h

theorem cut_ne_nil (depth : Nat) (cs : List Char) : cut depth cs ≠ [] := by
  fun_cases cut depth cs with
  | case1 => simp
  | case2 => simp
  | case3 =>
    rw [beforeFirst.eq_def]
    split <;> simp

theorem beforeFirst_append (s t : String) (pieces : List String) :
    beforeFirst (s ++ t) pieces = beforeFirst s (beforeFirst t pieces) := by
  cases pieces <;> simp [beforeFirst, String.append_assoc]

theorem beforeFirst_empty {pieces : List String} (h : pieces ≠ []) :
    beforeFirst "" pieces = pieces := by
  cases pieces with
  | nil => exact absurd rfl h
  | cons piece pieces => simp [beforeFirst]

/-! ## Texts that are not cut -/

section Leads

variable {n m k : Nat} {s t : String}

theorem leads_empty : Leads n n "" := by
  intro depth rest
  exact (beforeFirst_empty (cut_ne_nil (depth + n) rest)).symm

theorem Leads.append (hs : Leads n m s) (ht : Leads m k t) : Leads n k (s ++ t) := by
  intro depth rest
  rw [String.toList_append, List.append_assoc, hs depth, ht depth, beforeFirst_append]

/-- What is not cut outside brackets is not cut inside them. -/
theorem Leads.inside (h : Leads 0 0 s) : Leads n n s :=
  fun depth => h (depth + n)

/-- The brackets that are open after a text, if it closes none but those counted before it and has
no comma where none of them is open. -/
def through? : Nat → List Char → Option Nat
  | depth, [] => some depth
  | depth, c :: cs =>
    if depth = 0 ∧ c ∈ [',', ')', ']'] then none else through? (depthAfter depth c) cs

theorem depthAfter_add {depth n : Nat} {c : Char} (h : ¬(n = 0 ∧ c ∈ [',', ')', ']'])) :
    depthAfter (depth + n) c = depth + depthAfter n c := by
  unfold depthAfter
  split_ifs with opens closes
  · rfl
  · have : n ≠ 0 := by
      rintro rfl
      rcases closes with rfl | rfl <;> simp at h
    omega
  · rfl

theorem leads_of_through? (h : through? n s.toList = some m) : Leads n m s := by
  rw [← String.ofList_toList (s := s)]
  generalize s.toList = cs at h
  induction cs generalizing n with
  | nil =>
    obtain rfl := Option.some.inj h
    exact leads_empty
  | cons c cs ih =>
    rw [through?] at h
    split at h
    · cases h
    · next counted =>
      have split : String.ofList (c :: cs) = String.singleton c ++ String.ofList cs := by
        rw [← String.toList_inj]
        simp
      have first : Leads n (depthAfter n c) (String.singleton c) := by
        intro depth rest
        have notCut : c ≠ ',' ∨ 0 < depth + n := by
          by_cases comma : c = ','
          · have : n ≠ 0 := fun zero => counted ⟨zero, by simp [comma]⟩
            exact .inr (by omega)
          · exact .inl comma
        rw [String.toList_singleton, List.singleton_append, cut_cons notCut, depthAfter_add counted]
      rw [split]
      exact first.append (ih h)

theorem through?_of_unmarked {cs : List Char} (h : ∀ c ∈ cs, c ∉ cutMarks) (depth : Nat) :
    through? depth cs = some depth := by
  induction cs with
  | nil => rfl
  | cons c cs ih =>
    obtain ⟨hc, hcs⟩ := List.forall_mem_cons.1 h
    simp only [cutMarks, List.mem_cons, List.not_mem_nil, or_false, not_or] at hc
    have same : depthAfter depth c = depth := by simp [depthAfter, hc]
    rw [through?, if_neg (by simp [hc]), same, ih hcs]

theorem leads_of_isUnmarked (h : isUnmarked s = true) : Leads n n s := by
  refine leads_of_through? (through?_of_unmarked ?_ n)
  simpa [isUnmarked] using h

theorem leads_opening : Leads 0 1 "(" :=
  leads_of_through? rfl

theorem leads_closing : Leads 1 0 ")" :=
  leads_of_through? rfl

/-- Inside brackets commas do not count. -/
theorem leads_separator : Leads (n + 1) (n + 1) ", " :=
  leads_of_through? (by simp [through?, depthAfter])

theorem leads_joinWith {ss : List String} (h : ∀ s ∈ ss, Leads (n + 1) (n + 1) s) :
    Leads (n + 1) (n + 1) (joinWith ", " ss) := by
  induction ss with
  | nil => exact leads_empty
  | cons s rest ih =>
    obtain ⟨first, others⟩ := List.forall_mem_cons.1 h
    cases rest with
    | nil => exact first
    | cons t rest =>
      rw [joinWith_cons _ (List.cons_ne_nil t rest)]
      exact (first.append leads_separator).append (ih others)

end Leads

/-! ## Texts that are cut -/

section Cuts

variable {s t last last' : String} {done done' : List String}

theorem Leads.cuts (h : Leads 0 0 s) : Cuts s [] s :=
  h 0

/-- Text that is not cut goes on the last piece. -/
theorem Cuts.append (hs : Cuts s done last) (ht : Leads 0 0 t) :
    Cuts (s ++ t) done (last ++ t) := by
  intro rest
  rw [String.toList_append, List.append_assoc, hs, beforeFirst_append]
  exact congrArg (done ++ beforeFirst last ·) (ht 0 rest)

/-- At a comma the last piece is complete. -/
theorem Cuts.comma (hs : Cuts s done last) (ht : Cuts t done' last') :
    Cuts (s ++ ", " ++ t) (done ++ last :: done') last' := by
  intro rest
  have read : cut 0 (s.toList ++ (',' :: ' ' :: (t.toList ++ rest))) =
      done ++ last :: (done' ++ beforeFirst last' (cut 0 rest)) := by
    rw [hs, cut_comma, ht, beforeFirst, String.append_empty]
  simpa using read

theorem Cuts.outerPieces_eq (h : Cuts s done last) : outerPieces s = done ++ [last] := by
  have whole := h []
  rwa [List.append_nil, cut, beforeFirst, String.append_empty] at whole

end Cuts

theorem joinWith_beforeFirst {pieces : List String} (sep s : String) (h : pieces ≠ []) :
    joinWith sep (beforeFirst s pieces) = s ++ joinWith sep pieces := by
  cases pieces with
  | nil => exact absurd rfl h
  | cons piece pieces =>
    cases pieces with
    | nil => rfl
    | cons next pieces => simp only [beforeFirst, joinWith, String.append_assoc]

theorem joinWith_cut (depth : Nat) (cs : List Char) :
    joinWith ", " (cut depth cs) = String.ofList cs := by
  fun_induction cut depth cs with
  | case1 => rfl
  | case2 cs ih =>
    rw [joinWith_cons _ (cut_ne_nil _ _), ih, ← String.toList_inj]
    simp
  | case3 depth c cs h ih =>
    rw [joinWith_beforeFirst _ _ (cut_ne_nil _ _), ih, ← String.toList_inj]
    simp

/-- The pieces with commas between them are the text. -/
theorem joinWith_outerPieces (s : String) : joinWith ", " (outerPieces s) = s := by
  rw [outerPieces, joinWith_cut, String.ofList_toList]

theorem Cuts.joinWith_eq {s last : String} {done : List String} (h : Cuts s done last) :
    joinWith ", " (done ++ [last]) = s := by
  rw [← h.outerPieces_eq, joinWith_outerPieces]

end Calcsheet.Text
