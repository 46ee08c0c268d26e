import Calcsheet.Code.Fragment
import Calcsheet.Kind
import Calcsheet.Proofs.Lists
import Calcsheet.Text.Alphanumeric

/-!
# Reading expressions back

The text of a fragment tells the fragment: `Readback.expression` reads it from left to right, and
no other fragment has the same text. This is about plain fragments, in which names and numbers are
words, operators are those of the vocabulary, and nothing is empty or a bare list.

The reader looks at one character to choose between the constructors: a word, a parenthesis, or a
parenthesis and a minus sign. An index follows what it is taken of, so when an expression has been
read the reader goes on as long as a bracket follows. It is given fuel, and `Settles` says that its
answer does not change any more from some amount on.
-/

namespace Calcsheet.Code

/-- The letters, digits and marks of names and numbers. -/
def isWordChar (c : Char) : Bool :=
  Text.isAlphanumeric c || c = '_' || c = '.'

theorem inRanges_of_mem {ranges : List (Nat × Nat)} {low high : Nat} {c : Char}
    (mem : (low, high) ∈ ranges) (hlow : low ≤ c.toNat) (hhigh : c.toNat ≤ high) :
    Text.inRanges ranges c = true := by
  rw [Text.inRanges, List.any_eq_true]
  exact ⟨(low, high), mem, by simp [hlow, hhigh]⟩

theorem isWordChar_of_isAlphanum {c : Char} (h : c.isAlphanum = true) : isWordChar c = true := by
  -- ASCII comes first in the tables of all scripts
  have upper : (0x41, 0x5A) ∈ Text.alphabeticRanges := .head _
  have lower : (0x61, 0x7A) ∈ Text.alphabeticRanges := .tail _ (.head _)
  have digit : (0x30, 0x39) ∈ Text.numericRanges := .head _
  change (decide (c.val ≥ 'A'.val ∧ c.val ≤ 'Z'.val) || (c.val ≥ 'a'.val && c.val ≤ 'z'.val) ||
    (c.val ≥ '0'.val && c.val ≤ '9'.val)) = true at h
  simp only [Bool.or_eq_true, Bool.and_eq_true, decide_eq_true_eq, UInt32.le_iff_toNat_le,
    ge_iff_le] at h
  have alphanumeric : Text.isAlphanumeric c = true := by
    rw [Text.isAlphanumeric, Bool.or_eq_true, Text.isAlphabetic, Text.isNumeric]
    rcases h with (⟨low, high⟩ | ⟨low, high⟩) | ⟨low, high⟩
    · exact .inl (inRanges_of_mem upper low high)
    · exact .inl (inRanges_of_mem lower low high)
    · exact .inr (inRanges_of_mem digit low high)
  simp [isWordChar, alphanumeric]

theorem not_isWordChar : ∀ c ∈ ['(', ')', '[', ']', ',', ' ', '-'], isWordChar c = false := by
  have all : (['(', ')', '[', ']', ',', ' ', '-'].all fun c => !isWordChar c) = true := by
    decide +kernel
  simpa only [List.all_eq_true, Bool.not_eq_true'] using all

/-- A name or a number in code. -/
def IsWord (s : String) : Prop :=
  s ≠ "" ∧ ∀ c ∈ s.toList, isWordChar c = true

theorem IsWord.exists_cons {s : String} (h : IsWord s) :
    ∃ c cs, s.toList = c :: cs ∧ isWordChar c = true := by
  cases hs : s.toList with
  | nil => exact absurd (String.toList_eq_nil_iff.1 hs) h.1
  | cons c cs => exact ⟨c, cs, rfl, h.2 c (by simp [hs])⟩

theorem isWord_of_ascii {s : String} (notEmpty : s ≠ "")
    (ascii : (s.toList.all fun c => c.isAlphanum || c = '_' || c = '.') = true) : IsWord s := by
  refine ⟨notEmpty, fun c hc => ?_⟩
  have hc := List.all_eq_true.1 ascii c hc
  simp only [Bool.or_eq_true, decide_eq_true_eq] at hc
  rcases hc with (hc | rfl) | rfl
  · exact isWordChar_of_isAlphanum hc
  · simp [isWordChar]
  · simp [isWordChar]

/-- A fragment of words and known operators in which nothing is empty and no list stands bare. -/
inductive Fragment.Plain : Fragment → Prop
  | atom {text} (word : IsWord text) : Plain (.atom text)
  | binary {l r} (op : BinaryOp) (left : Plain l) (right : Plain r) : Plain (.binary op.symbol l r)
  | call {function arguments} (word : IsWord function) (plain : ∀ f ∈ arguments, Plain f) :
      Plain (.call function arguments)
  | group {f} (inner : Plain f) : Plain (.group f)
  | index {t p} (target : Plain t) (position : Plain p) : Plain (.index t p)
  | negate {f} (operand : Plain f) : Plain (.negate f)
  | complex {re im} (real : Plain re) (imaginary : Plain im) : Plain (.complex re im)
  | conditional {c t u} (condition : Plain c) (whenTrue : Plain t) (whenFalse : Plain u) :
      Plain (.conditional c t u)

namespace Readback

/-! ## The reader -/

/-- A fragment and the text after it, or nothing if there is none. -/
abbrev Result := Option (Fragment × List Char)

mutual

/-- Reads an expression. -/
def expression : Nat → List Char → Result
  | 0, _ => none
  | n + 1, s =>
    if s.head? = some '(' then
      if s.tail.head? = some '-' then
        (expression n (s.drop "(-1.0 * (".length)).bind fun (f, s) =>
          indexes n (.negate f) (s.drop "))".length)
      else (expression n s.tail).bind fun (f, s) => inParentheses n f s
    else afterWord n (String.ofList (s.takeWhile isWordChar)) (s.dropWhile isWordChar)

/-- Reads the indexes that follow `f`. -/
def indexes : Nat → Fragment → List Char → Result
  | 0, _, _ => none
  | n + 1, f, s =>
    if s.head? = some '[' then
      (expression n s.tail).bind fun (g, s) => indexes n (.index f g) s.tail
    else some (f, s)

/-- Reads what follows `f`, the first thing in parentheses: their end, or a choice or an operator
with its other operands. -/
def inParentheses : Nat → Fragment → List Char → Result
  | 0, _, _ => none
  | n + 1, f, s =>
    if s.head? = some ')' then indexes n (.group f) s.tail
    else if s.tail.head? = some '?' then
      (expression n (s.drop " ? (".length)).bind fun (g, s) =>
        (expression n (s.drop ") : ".length)).bind fun (h, s) =>
          indexes n (.conditional f g h) s.tail
    else
      let symbol := String.ofList (s.tail.takeWhile (· != ' '))
      (expression n (s.tail.dropWhile (· != ' ')).tail).bind fun (g, s) =>
        indexes n (.binary symbol f g) s.tail

/-- Reads what follows a word: the arguments of a function, the parts of a complex number, or
nothing that belongs to it. -/
def afterWord : Nat → String → List Char → Result
  | 0, _, _ => none
  | n + 1, word, s =>
    if s.head? = some '(' then
      if s.tail.head? = some ')' then indexes n (.call word []) (s.drop "()".length)
      else (arguments n s.tail).bind fun (fs, s) => indexes n (.call word fs) s
    else if s.take 2 = [' ', 'C'] then
      (expression n (s.drop " Complex(".length)).bind fun (f, s) =>
        (expression n (s.drop ", ".length)).bind fun (g, s) => indexes n (.complex f g) s.tail
    else indexes n (.atom word) s

/-- Reads expressions with commas between them, and the parenthesis that ends them. -/
def arguments : Nat → List Char → Option (List Fragment × List Char)
  | 0, _ => none
  | n + 1, s =>
    (expression n s).bind fun (f, s) =>
      if s.head? = some ',' then
        (arguments n (s.drop ", ".length)).bind fun (fs, s) => some (f :: fs, s)
      else some ([f], s.tail)

end

/-! ## The rules of the reader -/

section Rules

variable {n : Nat} {word : String} {f g h : Fragment} {fs : List Fragment} {s s' rest : List Char}

theorem expression_negate (hf : expression n s = some (f, ')' :: ')' :: rest)) :
    expression (n + 1) ("(-1.0 * (".toList ++ s) = indexes n (.negate f) rest := by
  have step : expression (n + 1) ("(-1.0 * (".toList ++ s) = (expression n s).bind _ := rfl
  rw [step, hf]
  rfl

theorem expression_parenthesis (notMinus : s.head? ≠ some '-')
    (hf : expression n s = some (f, rest)) :
    expression (n + 1) ('(' :: s) = inParentheses n f rest := by
  have step : expression (n + 1) ('(' :: s) =
      if s.head? = some '-' then _ else (expression n s).bind _ := rfl
  rw [step, if_neg notMinus, hf]
  rfl

theorem expression_word (isWord : IsWord word) (stop : ∀ c ∈ s.head?, isWordChar c = false) :
    expression (n + 1) (word.toList ++ s) = afterWord n word s := by
  obtain ⟨c, cs, hcs, hc⟩ := isWord.exists_cons
  have notParenthesis : (word.toList ++ s).head? ≠ some '(' := by
    rw [hcs]
    rintro ⟨⟩
    simp [not_isWordChar '(' (by simp)] at hc
  have step : expression (n + 1) (word.toList ++ s) =
      if (word.toList ++ s).head? = some '(' then _ else afterWord n _ _ := rfl
  rw [step, if_neg notParenthesis, Text.takeWhile_run isWord.2 stop,
    Text.dropWhile_run isWord.2 stop, String.ofList_toList]

theorem indexes_bracket (hg : expression n s = some (g, ']' :: rest)) :
    indexes (n + 1) f ('[' :: s) = indexes n (.index f g) rest := by
  have step : indexes (n + 1) f ('[' :: s) = (expression n s).bind _ := rfl
  rw [step, hg]
  rfl

theorem indexes_of_ne (noBracket : s.head? ≠ some '[') : indexes (n + 1) f s = some (f, s) := by
  have step : indexes (n + 1) f s = if s.head? = some '[' then _ else some (f, s) := rfl
  rw [step, if_neg noBracket]

theorem inParentheses_end : inParentheses (n + 1) f (')' :: s) = indexes n (.group f) s :=
  rfl

theorem inParentheses_conditional (hg : expression n s = some (g, ") : ".toList ++ s'))
    (hh : expression n s' = some (h, ')' :: rest)) :
    inParentheses (n + 1) f (" ? (".toList ++ s) = indexes n (.conditional f g h) rest := by
  have step : inParentheses (n + 1) f (" ? (".toList ++ s) = (expression n s).bind _ := rfl
  rw [step, hg]
  show (expression n s').bind _ = _
  rw [hh]
  rfl

theorem inParentheses_binary (op : BinaryOp) (hg : expression n s = some (g, ')' :: rest)) :
    inParentheses (n + 1) f (' ' :: (op.symbol.toList ++ ' ' :: s)) =
      indexes n (.binary op.symbol f g) rest := by
  have step : inParentheses (n + 1) f (' ' :: (op.symbol.toList ++ ' ' :: s)) =
      (expression n s).bind fun r => indexes n (.binary op.symbol f r.1) r.2.tail := by
    cases op <;> rfl
  rw [step, hg]
  rfl

theorem afterWord_empty : afterWord (n + 1) word ('(' :: ')' :: s) = indexes n (.call word []) s :=
  rfl

theorem afterWord_arguments (notEnd : s.head? ≠ some ')') (hfs : arguments n s = some (fs, rest)) :
    afterWord (n + 1) word ('(' :: s) = indexes n (.call word fs) rest := by
  have step : afterWord (n + 1) word ('(' :: s) =
      if s.head? = some ')' then _ else (arguments n s).bind _ := rfl
  rw [step, if_neg notEnd, hfs]
  rfl

theorem afterWord_complex (hf : expression n s = some (f, ", ".toList ++ s'))
    (hg : expression n s' = some (g, ')' :: rest)) :
    afterWord (n + 1) word (" Complex(".toList ++ s) = indexes n (.complex f g) rest := by
  have step : afterWord (n + 1) word (" Complex(".toList ++ s) = (expression n s).bind _ := rfl
  rw [step, hf]
  show (expression n s').bind _ = _
  rw [hg]
  rfl

theorem afterWord_alone (noCall : s.head? ≠ some '(') (noComplex : s.take 2 ≠ [' ', 'C']) :
    afterWord (n + 1) word s = indexes n (.atom word) s := by
  have step : afterWord (n + 1) word s = if s.head? = some '(' then _ else
      if s.take 2 = [' ', 'C'] then _ else indexes n (.atom word) s := rfl
  rw [step, if_neg noCall, if_neg noComplex]

theorem arguments_last (hf : expression n s = some (f, ')' :: rest)) :
    arguments (n + 1) s = some ([f], rest) := by
  have step : arguments (n + 1) s = (expression n s).bind _ := rfl
  rw [step, hf]
  rfl

theorem arguments_more (hf : expression n s = some (f, ", ".toList ++ s'))
    (hfs : arguments n s' = some (fs, rest)) : arguments (n + 1) s = some (f :: fs, rest) := by
  have step : arguments (n + 1) s = (expression n s).bind _ := rfl
  rw [step, hf]
  show (arguments n s').bind _ = _
  rw [hfs]
  rfl

end Rules

/-! ## Settled answers -/

/-- From some amount of fuel on the answer is `x`. -/
def Settles {α : Type} (a : Nat → α) (x : α) : Prop :=
  ∃ N, ∀ n, N ≤ n → a n = x

namespace Settles

variable {α β γ δ : Type} {a : Nat → α} {a' : Nat → β} {b c : Nat → γ} {x : α} {x' : β} {y : γ}

/-- The answers of `b` are those of `c` with one more unit of fuel, once `a` and `a'` have
settled. -/
theorem step₂ (ha : Settles a x) (ha' : Settles a' x')
    (h : ∀ n, a n = x → a' n = x' → b (n + 1) = c n) (hc : Settles c y) : Settles b y := by
  obtain ⟨N, hN⟩ := ha
  obtain ⟨N', hN'⟩ := ha'
  obtain ⟨M, hM⟩ := hc
  refine ⟨max N (max N' M) + 1, fun n hn => ?_⟩
  obtain ⟨m, rfl⟩ : ∃ m, n = m + 1 := ⟨n - 1, by omega⟩
  rw [h m (hN m (by omega)) (hN' m (by omega)), hM m (by omega)]

theorem step (ha : Settles a x) (h : ∀ n, a n = x → b (n + 1) = c n) (hc : Settles c y) :
    Settles b y :=
  ha.step₂ ha (fun n hn _ => h n hn) hc

theorem const (x : α) : Settles (fun _ => x) x :=
  ⟨0, fun _ _ => rfl⟩

theorem next (h : ∀ n, b (n + 1) = c n) (hc : Settles c y) : Settles b y :=
  (const ()).step (fun n _ => h n) hc

theorem unique (ha : Settles a x) {x' : α} (ha' : Settles a x') : x = x' := by
  obtain ⟨N, hN⟩ := ha
  obtain ⟨M, hM⟩ := ha'
  rw [← hN (max N M) (by omega), hM (max N M) (by omega)]

end Settles

/-! ## What can follow an expression -/

/-- The text that follows an expression. It does not go on with a word or with what belongs to
one. -/
def Follows : List Char → Prop
  | [] => True
  | ' ' :: c :: _ => c ≠ 'C'
  | c :: _ => c ∈ [')', ',', ']', '[']

theorem afterWord_of_follows (n : Nat) (word : String) {s : List Char} (h : Follows s) :
    afterWord (n + 1) word s = indexes n (.atom word) s := by
  unfold Follows at h
  split at h
  · exact afterWord_alone (by simp) (by simp)
  · exact afterWord_alone (by simp) (by simp [h])
  · refine afterWord_alone ?_ ?_
    · rintro ⟨⟩
      simp at h
    · intro take
      have := (List.cons.inj take).1
      subst this
      simp at h

/-- A plain fragment begins with a word or an opening parenthesis. -/
theorem head_render {f : Fragment} (h : f.Plain) :
    ∃ c s, f.render.toList = c :: s ∧ (c = '(' ∨ isWordChar c = true) := by
  induction h with
  | atom word =>
    obtain ⟨c, s, hs, hc⟩ := word.exists_cons
    exact ⟨c, s, by simp [hs], .inr hc⟩
  | call word plain ih =>
    obtain ⟨c, s, hs, hc⟩ := word.exists_cons
    exact ⟨c, _, by simp [hs]; rfl, .inr hc⟩
  | complex real imaginary ihre ihim =>
    exact ⟨'n', _, by simp; rfl, .inr (isWordChar_of_isAlphanum rfl)⟩
  | index target position iht ihp =>
    obtain ⟨c, s, hs, hc⟩ := iht
    exact ⟨c, _, by simp [hs]; rfl, hc⟩
  | binary | group | negate | conditional =>
    exact ⟨'(', _, by simp; rfl, .inl rfl⟩

theorem head?_render_ne {f : Fragment} (h : f.Plain) {c : Char} (hc : c ∈ [')', '-'])
    (rest : List Char) : (f.render.toList ++ rest).head? ≠ some c := by
  obtain ⟨c', s, hs, hc'⟩ := head_render h
  rw [hs]
  rintro ⟨⟩
  rcases hc' with rfl | hc'
  · simp at hc
  · have : c ∈ ['(', ')', '[', ']', ',', ' ', '-'] := by
      simp only [List.mem_cons, List.not_mem_nil, or_false] at hc
      rcases hc with rfl | rfl <;> simp
    rw [not_isWordChar c this] at hc'
    cases hc'

/-! ## The text of a fragment is read back -/

/-- When the text of `f` has been read, the reader goes on with the indexes of `f`. -/
def ReadsBack (f : Fragment) : Prop :=
  ∀ (s : List Char) (x : Result), Follows s → Settles (fun n => indexes n f s) x →
    Settles (fun n => expression n (f.render.toList ++ s)) x

/-- Before anything but a bracket the expression is complete. -/
theorem ReadsBack.settles {f : Fragment} (h : ReadsBack f) {s : List Char} (hs : Follows s)
    (noIndex : s.head? ≠ some '[') :
    Settles (fun n => expression n (f.render.toList ++ s)) (some (f, s)) :=
  h s _ hs (.next (fun _ => indexes_of_ne noIndex) (.const _))

section Constructors

variable {f g h : Fragment}

theorem Follows.not_isWordChar {s : List Char} (hs : Follows s) :
    ∀ c ∈ s.head?, isWordChar c = false := by
  unfold Follows at hs
  split at hs
  · simp
  · rintro _ ⟨⟩
    exact Code.not_isWordChar ' ' (by simp)
  · rintro _ ⟨⟩
    simp only [List.mem_cons, List.not_mem_nil, or_false] at hs
    rcases hs with rfl | rfl | rfl | rfl <;> exact Code.not_isWordChar _ (by simp)

theorem readsBack_atom {text : String} (word : IsWord text) : ReadsBack (.atom text) := by
  intro s x hs hx
  rw [Fragment.render_atom]
  refine .next (fun _ => expression_word word hs.not_isWordChar) ?_
  exact .next (fun n => afterWord_of_follows n text hs) hx

theorem readsBack_group (plain : f.Plain) (hf : ReadsBack f) : ReadsBack (.group f) := by
  intro s x hs hx
  have text : (Fragment.group f).render.toList ++ s = '(' :: (f.render.toList ++ ')' :: s) := by
    simp
  have first := hf.settles (s := ')' :: s) (by simp [Follows]) (by simp)
  rw [text]
  refine first.step (fun _ => expression_parenthesis (head?_render_ne plain (by simp) _)) ?_
  exact .next (fun _ => inParentheses_end) hx

theorem readsBack_negate (hf : ReadsBack f) : ReadsBack (.negate f) := by
  intro s x hs hx
  have text : (Fragment.negate f).render.toList ++ s =
      "(-1.0 * (".toList ++ (f.render.toList ++ ')' :: ')' :: s) := by
    simp
  have operand := hf.settles (s := ')' :: ')' :: s) (by simp [Follows]) (by simp)
  rw [text]
  exact operand.step (fun _ => expression_negate) hx

theorem readsBack_index (hf : ReadsBack f) (hg : ReadsBack g) : ReadsBack (.index f g) := by
  intro s x hs hx
  have text : (Fragment.index f g).render.toList ++ s =
      f.render.toList ++ '[' :: (g.render.toList ++ ']' :: s) := by
    simp
  have position := hg.settles (s := ']' :: s) (by simp [Follows]) (by simp)
  rw [text]
  apply hf _ _ (by simp [Follows])
  exact position.step (fun _ => indexes_bracket) hx

theorem head?_symbol (op : BinaryOp) : ∃ c cs, op.symbol.toList = c :: cs ∧ c ≠ 'C' := by
  cases op <;> exact ⟨_, _, rfl, by decide⟩

theorem readsBack_binary (op : BinaryOp) (plain : f.Plain) (hf : ReadsBack f) (hg : ReadsBack g) :
    ReadsBack (.binary op.symbol f g) := by
  intro s x hs hx
  have text : (Fragment.binary op.symbol f g).render.toList ++ s = '(' :: (f.render.toList ++
      ' ' :: (op.symbol.toList ++ ' ' :: (g.render.toList ++ ')' :: s))) := by
    simp
  obtain ⟨c, cs, hop, notC⟩ := head?_symbol op
  have left := hf.settles
    (s := ' ' :: (op.symbol.toList ++ ' ' :: (g.render.toList ++ ')' :: s)))
    (by simp [hop, Follows, notC]) (by simp)
  have right := hg.settles (s := ')' :: s) (by simp [Follows]) (by simp)
  rw [text]
  refine left.step (fun _ => expression_parenthesis (head?_render_ne plain (by simp) _)) ?_
  exact right.step (fun _ => inParentheses_binary op) hx

theorem readsBack_conditional (plain : f.Plain) (hf : ReadsBack f) (hg : ReadsBack g)
    (hh : ReadsBack h) : ReadsBack (.conditional f g h) := by
  intro s x hs hx
  have text : (Fragment.conditional f g h).render.toList ++ s =
      '(' :: (f.render.toList ++ (" ? (".toList ++ (g.render.toList ++
        (") : ".toList ++ (h.render.toList ++ ')' :: s))))) := by
    simp
  have condition := hf.settles (s := " ? (".toList ++ (g.render.toList ++
    (") : ".toList ++ (h.render.toList ++ ')' :: s)))) (by simp [Follows]) (by simp)
  have whenTrue := hg.settles (s := ") : ".toList ++ (h.render.toList ++ ')' :: s))
    (by simp [Follows]) (by simp)
  have whenFalse := hh.settles (s := ')' :: s) (by simp [Follows]) (by simp)
  rw [text]
  refine condition.step (fun _ => expression_parenthesis (head?_render_ne plain (by simp) _)) ?_
  exact whenTrue.step₂ whenFalse (fun _ => inParentheses_conditional) hx

theorem isWord_new : IsWord "new" :=
  isWord_of_ascii (by decide) (by decide)

theorem readsBack_complex (hf : ReadsBack f) (hg : ReadsBack g) : ReadsBack (.complex f g) := by
  intro s x hs hx
  have text : (Fragment.complex f g).render.toList ++ s =
      "new".toList ++ (" Complex(".toList ++ (f.render.toList ++
        (", ".toList ++ (g.render.toList ++ ')' :: s)))) := by
    simp
  have re := hf.settles (s := ", ".toList ++ (g.render.toList ++ ')' :: s)) (by simp [Follows])
    (by simp)
  have im := hg.settles (s := ')' :: s) (by simp [Follows]) (by simp)
  rw [text]
  refine .next (fun _ => expression_word isWord_new ?_) ?_
  · rintro _ ⟨⟩
    exact not_isWordChar ' ' (by simp)
  · exact re.step₂ im (fun _ => afterWord_complex) hx

theorem settles_arguments {fs : List Fragment} (notNil : fs ≠ []) (hfs : ∀ f ∈ fs, ReadsBack f)
    (s : List Char) :
    Settles (fun n => arguments n ((Fragment.renderList fs).toList ++ ')' :: s))
      (some (fs, s)) := by
  induction fs with
  | nil => exact absurd rfl notNil
  | cons f rest ih =>
    have hf := hfs f (by simp)
    cases rest with
    | nil =>
      have last := hf.settles (s := ')' :: s) (by simp [Follows]) (by simp)
      rw [Fragment.renderList_singleton]
      exact last.step (fun _ => arguments_last) (.const _)
    | cons g rest =>
      have text : (Fragment.renderList (f :: g :: rest)).toList ++ ')' :: s = f.render.toList ++
          (", ".toList ++ ((Fragment.renderList (g :: rest)).toList ++ ')' :: s)) := by
        simp
      have first := hf.settles
        (s := ", ".toList ++ ((Fragment.renderList (g :: rest)).toList ++ ')' :: s))
        (by simp [Follows]) (by simp)
      have others := ih (by simp) fun f hf => hfs f (by simp [hf])
      rw [text]
      exact first.step₂ others (fun _ => arguments_more) (.const _)

theorem head?_renderList_ne {fs : List Fragment} (notNil : fs ≠ []) (plain : ∀ f ∈ fs, f.Plain)
    (s : List Char) : ((Fragment.renderList fs).toList ++ s).head? ≠ some ')' := by
  match fs with
  | [] => exact absurd rfl notNil
  | [f] =>
    rw [Fragment.renderList_singleton]
    exact head?_render_ne (plain f (by simp)) (by simp) s
  | f :: g :: rest =>
    simp only [Fragment.renderList_cons_cons, String.toList_append, List.append_assoc]
    exact head?_render_ne (plain f (by simp)) (by simp) _

theorem readsBack_call {function : String} {fs : List Fragment} (word : IsWord function)
    (plain : ∀ f ∈ fs, f.Plain) (hfs : ∀ f ∈ fs, ReadsBack f) :
    ReadsBack (.call function fs) := by
  intro s x hs hx
  have text : (Fragment.call function fs).render.toList ++ s =
      function.toList ++ '(' :: ((Fragment.renderList fs).toList ++ ')' :: s) := by
    simp
  rw [text]
  refine .next (fun _ => expression_word word ?_) ?_
  · rintro _ ⟨⟩
    exact not_isWordChar '(' (by simp)
  by_cases notNil : fs = []
  · subst notNil
    rw [Fragment.renderList_nil]
    exact .next (fun _ => afterWord_empty) hx
  · have notEnd := head?_renderList_ne notNil plain (')' :: s)
    exact (settles_arguments notNil hfs s).step (fun _ => afterWord_arguments notEnd) hx

end Constructors

theorem readsBack {f : Fragment} (h : f.Plain) : ReadsBack f := by
  induction h with
  | atom word => exact readsBack_atom word
  | binary op left right ihl ihr => exact readsBack_binary op left ihl ihr
  | call word plain ih => exact readsBack_call word plain ih
  | group inner ih => exact readsBack_group inner ih
  | index target position iht ihp => exact readsBack_index iht ihp
  | negate operand ih => exact readsBack_negate ih
  | complex real imaginary ihre ihim => exact readsBack_complex ihre ihim
  | conditional condition whenTrue whenFalse ihc iht ihu =>
    exact readsBack_conditional condition ihc iht ihu

/-- The text of a plain fragment is read back as the fragment, with nothing left. -/
theorem settles_expression_render {f : Fragment} (h : f.Plain) :
    Settles (fun n => expression n f.render.toList) (some (f, [])) := by
  simpa using (readsBack h).settles (s := []) trivial (by simp)

end Readback

/-- Rendered expressions are uniquely readable: plain fragments with the same text are the same. -/
theorem eq_of_render_eq {f g : Fragment} (hf : f.Plain) (hg : g.Plain) (h : f.render = g.render) :
    f = g := by
  have readF := Readback.settles_expression_render hf
  have readG := Readback.settles_expression_render hg
  rw [← h] at readG
  have same := readF.unique readG
  simpa using same

/-- Whether a cell lies below a threshold, for an operator that is given by its symbol. -/
def thresholdChoice (symbol : String) : Fragment :=
  .conditional (.binary symbol (.index (.group (.index (.atom "A_1") (.atom "i"))) (.atom "0"))
      (.negate (.call "limit" [])))
    (.complex (.atom "1.0") (.atom "2i")) (.call "Math.Max" [.atom "x", .atom "y"])

theorem plain_thresholdChoice (op : BinaryOp) : (thresholdChoice op.symbol).Plain := by
  have atom {s : String} (notEmpty : s ≠ "")
      (ascii : (s.toList.all fun c => c.isAlphanum || c = '_' || c = '.') = true) :
      (Fragment.atom s).Plain :=
    .atom (isWord_of_ascii notEmpty ascii)
  refine .conditional (.binary op (.index (.group (.index ?_ ?_)) ?_) (.negate (.call ?_ ?_)))
    (.complex ?_ ?_) (.call ?_ ?_)
  · exact atom (by decide) (by decide)
  · exact atom (by decide) (by decide)
  · exact atom (by decide) (by decide)
  · exact isWord_of_ascii (by decide) (by decide)
  · simp
  · exact atom (by decide) (by decide)
  · exact atom (by decide) (by decide)
  · exact isWord_of_ascii (by decide) (by decide)
  · intro f hf
    simp only [List.mem_cons, List.not_mem_nil, or_false] at hf
    rcases hf with rfl | rfl
    · exact atom (by decide) (by decide)
    · exact atom (by decide) (by decide)

theorem eq_of_render_eq_thresholdChoice :
    (thresholdChoice "<").Plain ∧ (thresholdChoice BinaryOp.lessThan.symbol).Plain ∧
      (thresholdChoice "<").render = (thresholdChoice BinaryOp.lessThan.symbol).render ∧
      thresholdChoice "<" = thresholdChoice BinaryOp.lessThan.symbol :=
  ⟨plain_thresholdChoice .lessThan, plain_thresholdChoice .lessThan, rfl,
    eq_of_render_eq (plain_thresholdChoice .lessThan) (plain_thresholdChoice .lessThan) rfl⟩

end Calcsheet.Code
