import Calcsheet.Proofs.Xml.Written
import Calcsheet.Xml.Item

/-!
# Reading characters as they are written

A reference is resolved to the character that it was written for, in text as in the value of an
attribute (`referenced?_eq`, `unescape_eq`), and a comment or a CDATA section ends at its first
mark.
-/

namespace Calcsheet.Xml

/-! ## Classes of characters -/

/-- The characters of which labels and keys can be made: none of them ends the label, the key or the
tag. -/
def isWordChar (c : Char) : Bool :=
  !isSpace c && !isQuote c && c != '>'

theorem isWordChar_iff {c : Char} :
    isWordChar c = true ↔ isSpace c = false ∧ isQuote c = false ∧ c ≠ '>' := by
  simp [isWordChar, and_assoc]

theorem ne_of_isAlphanum {c m : Char} (hc : c.isAlphanum = true) (hm : m.isAlphanum = false) :
    c ≠ m := by
  rintro rfl
  simp [hc] at hm

/-- The characters of names with or without a prefix. -/
def isLabelChar (c : Char) : Bool :=
  c.isAlphanum || c = ':'

theorem ne_of_isLabelChar {c m : Char} (hc : isLabelChar c = true) (hm : isLabelChar m = false) :
    c ≠ m := by
  rintro rfl
  simp [hc] at hm

theorem isLabelChar_of_isAlphanum {c : Char} (hc : c.isAlphanum = true) : isLabelChar c = true := by
  simp [isLabelChar, hc]

theorem isSpace_of_isLabelChar {c : Char} (hc : isLabelChar c = true) : isSpace c = false := by
  have blank : c ≠ ' ' := ne_of_isLabelChar hc rfl
  have tab : c ≠ '\t' := ne_of_isLabelChar hc rfl
  have feed : c ≠ '\r' := ne_of_isLabelChar hc rfl
  have newline : c ≠ '\n' := ne_of_isLabelChar hc rfl
  simp [isSpace, *]

theorem isQuote_of_isLabelChar {c : Char} (hc : isLabelChar c = true) : isQuote c = false := by
  have double : c ≠ '"' := ne_of_isLabelChar hc rfl
  have single : c ≠ '\'' := ne_of_isLabelChar hc rfl
  simp [isQuote, *]

theorem isWordChar_of_isLabelChar {c : Char} (hc : isLabelChar c = true) : isWordChar c = true :=
  isWordChar_iff.2 ⟨isSpace_of_isLabelChar hc, isQuote_of_isLabelChar hc, ne_of_isLabelChar hc rfl⟩

theorem isName_iff {s : List Char} :
    isName s = true ↔ ∃ c cs, s = c :: cs ∧ c.isAlpha = true ∧ ∀ d ∈ s, d.isAlphanum = true := by
  cases s with
  | nil => simp [isName]
  | cons c cs => simp +contextual [isName, Char.isAlphanum]

/-! ## References -/

theorem digitValue?_digitChar (d : Fin 10) :
    Text.digitValue? (Nat.digitChar d.val) = some d.val := by
  revert d
  decide

theorem hexValue?_hexDigit (upper : Bool) (d : Fin 16) :
    hexValue? (hexDigit upper d) = some d.val := by
  revert upper d
  decide

theorem digitsValue?_map (acc : Nat) (digits : List (Fin 10)) :
    Text.digitsValue? acc (digits.map fun d => Nat.digitChar d.val) =
      some (digits.foldl (fun n d => 10 * n + d.val) acc) := by
  induction digits generalizing acc with
  | nil => rfl
  | cons d rest ih => simp [Text.digitsValue?, digitValue?_digitChar, ih]

theorem hexDigitsValue?_map (acc : Nat) (digits : List (Bool × Fin 16)) :
    hexDigitsValue? acc (digits.map fun d => hexDigit d.1 d.2) =
      some (digits.foldl (fun n d => 16 * n + d.2.val) acc) := by
  induction digits generalizing acc with
  | nil => rfl
  | cons d rest ih => simp [hexDigitsValue?, hexValue?_hexDigit, ih]

theorem charOfCode?_toNat {c : Char} (notNull : c.toNat ≠ 0) : charOfCode? c.toNat = some c := by
  have valid : c.toNat.isValidChar := c.valid
  rw [charOfCode?, dif_pos valid, if_neg notNull]
  rfl

theorem digitChar_ne_x (d : Fin 10) : Nat.digitChar d.val ≠ 'x' := by
  revert d
  decide

theorem referenced?_decimal {c : Char} (h : c ≠ 'x') (cs : List Char) :
    referenced? ('#' :: c :: cs) = (Text.digitsValue? 0 (c :: cs)).bind charOfCode? := by
  unfold referenced?
  split
  · next heq =>
    simp only [List.cons.injEq, true_and] at heq
    exact absurd heq.1 h
  · next heq =>
    simp only [List.cons.injEq, true_and] at heq
    rw [← heq, Text.digits?]
  · next other => exact absurd rfl (other _)

/-- A reference stands for the character that it was written for. -/
theorem referenced?_eq {c : Char} {name : List Char} (h : Reference c name) :
    referenced? name = some c := by
  cases h with
  | entity mem =>
    simp only [entities, List.mem_cons, Prod.mk.injEq, List.not_mem_nil, or_false] at mem
    rcases mem with ⟨rfl, rfl⟩ | ⟨rfl, rfl⟩ | ⟨rfl, rfl⟩ | ⟨rfl, rfl⟩ | ⟨rfl, rfl⟩ <;> rfl
  | decimal digits notNull value =>
    cases digits with
    | nil => exact absurd value.symm notNull
    | cons d rest =>
      have digits := digitsValue?_map 0 (d :: rest)
      rw [value, List.map_cons] at digits
      rw [List.map_cons, referenced?_decimal (digitChar_ne_x d), digits, Option.bind_some,
        charOfCode?_toNat notNull]
  | hexadecimal digits notNull value =>
    cases digits with
    | nil => exact absurd value.symm notNull
    | cons d rest =>
      have digits := hexDigitsValue?_map 0 (d :: rest)
      rw [value, List.map_cons] at digits
      rw [List.map_cons, referenced?, hexDigits?, digits, Option.bind_some,
        charOfCode?_toNat notNull]

theorem exists_digit_of_digitValue? {c : Char} {v : Nat} (h : Text.digitValue? c = some v) :
    ∃ d : Fin 10, d.val = v ∧ Nat.digitChar d.val = c := by
  have all : ∀ n : Fin 128, ∀ v ∈ Text.digitValue? (Char.ofNat n),
      ∃ d : Fin 10, d.val = v ∧ Nat.digitChar d.val = Char.ofNat n := by
    decide +kernel
  have ascii : c.toNat < 128 := by
    unfold Text.digitValue? at h
    split at h
    · next between => exact Nat.lt_of_le_of_lt between.2 (by decide)
    · cases h
  have found := all ⟨c.toNat, ascii⟩ v
  rw [Char.ofNat_toNat] at found
  exact found h

theorem exists_digit_of_hexValue? {c : Char} {v : Nat} (h : hexValue? c = some v) :
    ∃ (upper : Bool) (d : Fin 16), d.val = v ∧ hexDigit upper d = c := by
  have all : ∀ n : Fin 128, ∀ v ∈ hexValue? (Char.ofNat n),
      ∃ (upper : Bool) (d : Fin 16), d.val = v ∧ hexDigit upper d = Char.ofNat n := by
    decide +kernel
  have ascii : c.toNat < 128 := by
    unfold hexValue? at h
    split at h
    · next between => exact Nat.lt_of_le_of_lt between.2 (by decide)
    split at h
    · next between => exact Nat.lt_of_le_of_lt between.2 (by decide)
    split at h
    · next between => exact Nat.lt_of_le_of_lt between.2 (by decide)
    · cases h
  have found := all ⟨c.toNat, ascii⟩ v
  rw [Char.ofNat_toNat] at found
  exact found h

theorem exists_digits_of_digitsValue? {acc v : Nat} {cs : List Char}
    (h : Text.digitsValue? acc cs = some v) :
    ∃ digits : List (Fin 10), digits.foldl (fun n d => 10 * n + d.val) acc = v ∧
      (digits.map fun d => Nat.digitChar d.val) = cs := by
  induction cs generalizing acc with
  | nil => exact ⟨[], Option.some.inj h, rfl⟩
  | cons c cs ih =>
    rw [Text.digitsValue?] at h
    split at h
    · next value =>
      obtain ⟨d, rfl, rfl⟩ := exists_digit_of_digitValue? value
      obtain ⟨digits, value, rfl⟩ := ih h
      exact ⟨d :: digits, value, rfl⟩
    · cases h

theorem exists_digits_of_hexDigitsValue? {acc v : Nat} {cs : List Char}
    (h : hexDigitsValue? acc cs = some v) :
    ∃ digits : List (Bool × Fin 16), digits.foldl (fun n d => 16 * n + d.2.val) acc = v ∧
      (digits.map fun d => hexDigit d.1 d.2) = cs := by
  induction cs generalizing acc with
  | nil => exact ⟨[], Option.some.inj h, rfl⟩
  | cons c cs ih =>
    rw [hexDigitsValue?] at h
    split at h
    · next value =>
      obtain ⟨upper, d, rfl, rfl⟩ := exists_digit_of_hexValue? value
      obtain ⟨digits, value, rfl⟩ := ih h
      exact ⟨(upper, d) :: digits, value, rfl⟩
    · cases h

theorem toNat_of_charOfCode? {n : Nat} {c : Char} (h : charOfCode? n = some c) :
    c.toNat = n ∧ c.toNat ≠ 0 := by
  rw [charOfCode?] at h
  by_cases valid : n.isValidChar
  · rw [dif_pos valid] at h
    by_cases null : n = 0
    · rw [if_pos null] at h
      cases h
    · rw [if_neg null] at h
      obtain rfl := Option.some.inj h
      exact ⟨rfl, null⟩
  · rw [dif_neg valid] at h
    cases h

/-- A name that stands for a character is one that refers to it. -/
theorem reference_of_referenced? {c : Char} {name : List Char} (h : referenced? name = some c) :
    Reference c name := by
  unfold referenced? at h
  split at h
  · next cs =>
    obtain ⟨n, hn, hc⟩ := Option.bind_eq_some_iff.1 h
    obtain ⟨rfl, notNull⟩ := toNat_of_charOfCode? hc
    cases cs with
    | nil => cases hn
    | cons d cs =>
      obtain ⟨digits, value, same⟩ := exists_digits_of_hexDigitsValue? hn
      rw [← same]
      exact .hexadecimal digits notNull value
  · next cs _ =>
    obtain ⟨n, hn, hc⟩ := Option.bind_eq_some_iff.1 h
    obtain ⟨rfl, notNull⟩ := toNat_of_charOfCode? hc
    cases cs with
    | nil => cases hn
    | cons d cs =>
      obtain ⟨digits, value, same⟩ := exists_digits_of_digitsValue? hn
      rw [← same]
      exact .decimal digits notNull value
  · have swapped : ∀ pair ∈ [("lt", '<'), ("gt", '>'), ("amp", '&'), ("apos", '\''), ("quot", '"')],
        (pair.2, pair.1) ∈ entities := by
      decide
    obtain ⟨before, after, listed, -⟩ := List.lookup_eq_some_iff.1 h
    have entity : (c, String.ofList name) ∈ entities :=
      swapped (String.ofList name, c) (by simp [listed])
    have reference := Reference.entity entity
    rwa [String.toList_ofList] at reference

/-- A reference is written with letters, digits and `#`. -/
theorem Reference.mem_name {c d : Char} {name : List Char} (h : Reference c name) (hd : d ∈ name) :
    d.isAlphanum = true ∨ d = '#' := by
  have decimal (n : Fin 10) : (Nat.digitChar n.val).isAlphanum = true := by
    revert n
    decide
  have hexadecimal (upper : Bool) (n : Fin 16) : (hexDigit upper n).isAlphanum = true := by
    revert upper n
    decide
  cases h with
  | entity mem =>
    simp only [entities, List.mem_cons, Prod.mk.injEq, List.not_mem_nil, or_false] at mem
    refine .inl (List.all_eq_true.1 ?_ d hd)
    rcases mem with ⟨-, rfl⟩ | ⟨-, rfl⟩ | ⟨-, rfl⟩ | ⟨-, rfl⟩ | ⟨-, rfl⟩ <;> decide
  | decimal digits _ _ =>
    rcases List.mem_cons.1 hd with rfl | hd
    · exact .inr rfl
    · obtain ⟨n, -, rfl⟩ := List.mem_map.1 hd
      exact .inl (decimal n)
  | hexadecimal digits _ _ =>
    rcases List.mem_cons.1 hd with rfl | hd
    · exact .inr rfl
    · rcases List.mem_cons.1 hd with rfl | hd
      · exact .inl rfl
      · obtain ⟨n, -, rfl⟩ := List.mem_map.1 hd
        exact .inl (hexadecimal n.1 n.2)

theorem Reference.ne_of_mem {c d m : Char} {name : List Char} (h : Reference c name) (hd : d ∈ name)
    (alphanum : m.isAlphanum = false) (hash : m ≠ '#') : d ≠ m := by
  rcases h.mem_name hd with hd | rfl
  · exact ne_of_isAlphanum hd alphanum
  · exact hash.symm

/-! ## Values -/

theorem resolve?_name {name read s : List Char} {c : Char}
    (plain : ∀ d ∈ name, d ≠ ';' ∧ d ≠ '&')
    (refers : referenced? (read.reverse ++ name) = some c) :
    resolve? (some read) (name ++ ';' :: s) = (resolve? none s).map (c :: ·) := by
  induction name generalizing read with
  | nil =>
    rw [List.append_nil] at refers
    rw [List.nil_append, resolve?, if_pos rfl, refers]
  | cons d rest ih =>
    obtain ⟨semicolon, ampersand⟩ := plain d (by simp)
    rw [List.cons_append, resolve?, if_neg semicolon, if_neg ampersand]
    refine ih (fun e he => plain e (by simp [he])) ?_
    simpa using refers

theorem resolve?_eq {value w : List Char} (h : ValueWritten value w) :
    resolve? none w = some value := by
  induction h with
  | nil => rfl
  | char first rest ih =>
    cases first with
    | raw plain =>
      simp only [List.mem_cons, not_or] at plain
      rw [List.singleton_append, resolve?, if_neg plain.1, ih, Option.map_some]
    | reference refers =>
      have name : ∀ d ∈ _, d ≠ ';' ∧ d ≠ '&' := fun d hd =>
        ⟨refers.ne_of_mem hd rfl (by decide), refers.ne_of_mem hd rfl (by decide)⟩
      rw [List.append_assoc, List.cons_append, resolve?, if_pos rfl, List.singleton_append,
        resolve?_name name (by simpa using referenced?_eq refers), ih, Option.map_some]

/-- The value of an attribute is what was written between its quotes. -/
theorem unescape_eq {value w : List Char} (h : ValueWritten value w) : unescape w = value := by
  rw [unescape, resolve?_eq h, Option.getD_some]

theorem isQuote_iff {q : Char} : isQuote q = true ↔ q ∈ ['"', '\''] := by
  simp [isQuote]

/-- There is no quote in a written value, so it ends at the quote behind it. -/
theorem ValueWritten.quote_not_mem {value w : List Char} {q : Char} (h : ValueWritten value w)
    (quote : isQuote q = true) : q ∉ w := by
  have notQuote {d : Char} (hd : isQuote d = false) : q ≠ d := by
    rintro rfl
    simp [quote] at hd
  induction h with
  | nil => simp
  | char first rest ih =>
    rw [List.mem_append, not_or]
    refine ⟨?_, ih⟩
    cases first with
    | raw plain =>
      simp only [List.mem_cons, List.not_mem_nil, or_false, not_or] at plain
      rw [List.mem_singleton]
      exact notQuote (by simp [isQuote, plain])
    | reference refers =>
      rw [List.mem_append, List.mem_cons, List.mem_singleton]
      rintro ((rfl | mem) | rfl)
      · exact absurd quote (by decide)
      · simp only [isQuote_iff, List.mem_cons, List.not_mem_nil, or_false] at quote
        rcases quote with rfl | rfl
        · exact refers.ne_of_mem mem rfl (by decide) rfl
        · exact refers.ne_of_mem mem rfl (by decide) rfl
      · exact absurd quote (by decide)

/-! ## Marks -/

theorem dropMark?_append (mark s : List Char) : dropMark? mark (mark ++ s) = some s := by
  induction mark with
  | nil => rfl
  | cons m mark ih => rw [List.cons_append, dropMark?, if_pos rfl, ih]

/-- A mark that two equal characters begin and another one ends does not overlap with itself, so it
is first found where it was put. -/
theorem cutAt?_append {m e : Char} (ne : m ≠ e) {chars : List Char} (h : ¬ [m, m, e] <:+: chars)
    (s : List Char) : cutAt? [m, m, e] (chars ++ [m, m, e] ++ s) = some (chars, s) := by
  induction chars with
  | nil =>
    have := dropMark?_append [m, m, e] s
    simp only [List.nil_append, List.cons_append] at this ⊢
    rw [cutAt?, this]
  | cons c cs ih =>
    have none : dropMark? [m, m, e] (c :: (cs ++ [m, m, e] ++ s)) = none := by
      refine Option.eq_none_iff_forall_ne_some.2 fun after hafter => ?_
      have begins := dropMark?_eq_some hafter
      rcases cs with _ | ⟨d, _ | ⟨f, cs⟩⟩
      · simp_all
      · simp_all
      · simp only [List.cons_append, List.nil_append, List.cons.injEq] at begins
        obtain ⟨rfl, rfl, rfl, -⟩ := begins
        exact h ⟨[], cs, rfl⟩
    rw [List.cons_append, List.cons_append, cutAt?, none,
      ih fun found => h (found.trans (List.suffix_cons c cs).isInfix), Option.map_some]

end Calcsheet.Xml
