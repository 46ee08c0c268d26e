import Calcsheet.Xml.Fault

/-!
# Cutting text at its marks

Markup is found by looking for marks: a character of a class, a fixed run of characters, or a `>`
that stands outside quotes. Each function here cuts a text in two at the first such mark. The part
after the cut is never longer than the text, which is why readers built from them come to an end.
-/

namespace Calcsheet.Xml

/-- The four characters that XML takes for white space. -/
def isSpace (c : Char) : Bool :=
  c = ' ' || c = '\t' || c = '\r' || c = '\n'

/-- The text without the white space that it begins with. -/
def skipSpace (s : List Char) : List Char :=
  s.dropWhile isSpace

/-- The text after `mark`, if it begins with it. -/
def dropMark? : List Char → List Char → Option (List Char)
  | [], s => some s
  | _ :: _, [] => none
  | m :: mark, c :: s => if m = c then dropMark? mark s else none

/-- The text before and after the first `mark`. -/
def cutAt? (mark : List Char) : List Char → Option (List Char × List Char)
  | [] => if mark.isEmpty then some ([], []) else none
  | c :: s =>
    match dropMark? mark (c :: s) with
    | some after => some ([], after)
    | none => (cutAt? mark s).map fun (before, after) => (c :: before, after)

/-- The characters that quote. -/
def isQuote (c : Char) : Bool :=
  c = '"' || c = '\''

/-- The text before and after the first `>` outside quotes. The text begins inside the quote
`quote?`, if there is one. -/
def cutTag (quote? : Option Char) : List Char → Except Fault (List Char × List Char)
  | [] =>
    match quote? with
    | some quote => .error (.unclosedValue quote)
    | none => .error .unclosedTag
  | c :: s =>
    let next? : Option (Option Char) :=
      match quote? with
      | some quote => some (if c = quote then none else some quote)
      | none => if c = '>' then none else some (if isQuote c then some c else none)
    match next? with
    | none => .ok ([], s)
    | some next =>
      match cutTag next s with
      | .ok (before, after) => .ok (c :: before, after)
      | .error fault => .error fault

/-! ## What is left is not longer -/

theorem length_dropWhile_le {α : Type} (p : α → Bool) (s : List α) :
    (s.dropWhile p).length ≤ s.length :=
  (List.dropWhile_suffix p).length_le

theorem dropMark?_eq_some {mark s after : List Char} (h : dropMark? mark s = some after) :
    s = mark ++ after := by
  induction mark generalizing s with
  | nil => simpa [dropMark?] using h
  | cons m mark ih =>
    cases s with
    | nil => simp [dropMark?] at h
    | cons c s =>
      simp only [dropMark?] at h
      split at h
      · next hm => rw [hm, ih h, List.cons_append]
      · cases h

theorem cutAt?_eq_some {mark s before after : List Char}
    (h : cutAt? mark s = some (before, after)) : s = before ++ mark ++ after := by
  induction s generalizing before with
  | nil =>
    simp only [cutAt?] at h
    split at h <;> simp_all
  | cons c s ih =>
    simp only [cutAt?] at h
    split at h
    · next hm =>
      cases h
      simpa using dropMark?_eq_some hm
    · obtain ⟨⟨before', after'⟩, hcut, heq⟩ := Option.map_eq_some_iff.1 h
      cases heq
      simpa using ih hcut

theorem cutTag_eq_ok {quote? : Option Char} {s before after : List Char}
    (h : cutTag quote? s = .ok (before, after)) : s = before ++ '>' :: after := by
  induction s generalizing quote? before with
  | nil => cases quote? <;> simp [cutTag] at h
  | cons c s ih =>
    simp only [cutTag] at h
    split at h
    · next hnext =>
      cases h
      cases quote? with
      | some quote => simp at hnext
      | none =>
        simp only at hnext
        split at hnext
        · next hc => simp [hc]
        · cases hnext
    · split at h
      · next hcut =>
        cases h
        rw [ih hcut, List.cons_append]
      · cases h

end Calcsheet.Xml
