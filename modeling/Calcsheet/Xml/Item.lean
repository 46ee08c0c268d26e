import Calcsheet.Xml.Tag

/-!
# The items of an XML text

`scan` splits a text into its items: runs of text, references, tags, and the pieces that mean
nothing here (comments, processing instructions, declarations and document types). An item is
recognised by how it begins, and where it ends depends on what it is. The first fault is the last
item.
-/

namespace Calcsheet.Xml

/-- One item of a text. -/
inductive Item where
  /-- Characters as they stand, from a run of text or a CDATA section. -/
  | text (chars : List Char)
  /-- A reference, by its name. -/
  | reference (name : List Char)
  /-- A tag that opens an element. -/
  | opening (tag : Tag)
  /-- A tag that is an element without content. -/
  | single (tag : Tag)
  /-- A tag that closes an element, by its name. -/
  | closing (name : List Char)
  /-- Something that is neither text nor element. -/
  | aside
  /-- The text cannot be read from here on. -/
  | fault (fault : Fault)
  deriving DecidableEq, Repr, Inhabited

/-- Lexing gives an item and the text after it. -/
abbrev Lexeme := Item × List Char

/-- A fault ends the text. -/
def faulty (fault : Fault) : Lexeme :=
  (.fault fault, [])

/-! ## Tags -/

/-- The name in a closing tag: its text up to the trailing white space. White space alone is a name
of its own. -/
def closingName (s : List Char) : List Char :=
  if s.all isSpace then s else (s.reverse.dropWhile isSpace).reverse

/-- The tag with the given text between `<` and `>` (or `/>`). -/
def Tag.ofText (s : List Char) : Tag :=
  { name := s.takeWhile fun c => !isSpace c, body := s.dropWhile fun c => !isSpace c }

/-- A closing tag, after `</`. -/
def lexClosing (s : List Char) : Lexeme :=
  match cutTag none s with
  | .ok (name, rest) => (.closing (closingName name), rest)
  | .error fault => faulty fault

/-- An opening tag, after `<`. One that ends in `/` is an element without content. -/
def lexOpening (s : List Char) : Lexeme :=
  match cutTag none s with
  | .ok (inner, rest) =>
    if inner.getLast? = some '/' then (.single (.ofText inner.dropLast), rest)
    else (.opening (.ofText inner), rest)
  | .error fault => faulty fault

/-! ## Instructions, comments and CDATA -/

/-- The text begins an XML declaration: `xml`, and then nothing that would make it another name. -/
def beginsDeclaration (s : List Char) : Bool :=
  match dropMark? "xml".toList s with
  | some [] => true
  | some (c :: _) => isSpace c || c = '?'
  | none => false

/-- A processing instruction or XML declaration, after `<?`. The opening question mark counts in
the search for the end, but an end that needs it is none. -/
def lexInstruction (s : List Char) : Lexeme :=
  if s.head? = some '>' then faulty .unclosedInstruction
  else
    match cutAt? "?>".toList s with
    | some (_, rest) => (.aside, rest)
    | none =>
      faulty (if beginsDeclaration s then .unclosedDeclaration else .unclosedInstruction)

/-- A comment, after `<!`. -/
def lexComment (s : List Char) : Lexeme :=
  match (dropMark? "--".toList s).bind (cutAt? "-->".toList) with
  | some (_, rest) => (.aside, rest)
  | none => faulty .unclosedComment

/-- A CDATA section, after `<!`. -/
def lexCData (s : List Char) : Lexeme :=
  match (dropMark? "[CDATA[".toList s).bind (cutAt? "]]>".toList) with
  | some (chars, rest) => (.text chars, rest)
  | none => faulty .unclosedCData

/-! ## Document types -/

/-- Where the search for the end of a document type stands. -/
inductive DoctypeState where
  /-- Before the declarations in brackets, inside a quote or not. -/
  | head (quote? : Option Char)
  /-- Between declarations. -/
  | declarations
  /-- In a declaration that ends at the first `>`. -/
  | plain
  /-- In a declaration that ends at the first `>` outside quotes. -/
  | quoting (quote? : Option Char)
  /-- In an instruction; the flag says that a question mark came just before. -/
  | instruction (question : Bool)
  /-- In a comment; the number counts the dashes just before, up to two. -/
  | comment (dashes : Nat)
  /-- After the closing bracket. -/
  | tail
  deriving DecidableEq, Repr, Inhabited

/-- The state in a declaration that begins with `<`, by what follows it, and how many of the
characters that follow are thereby read. The question mark that begins an instruction is no part of
its end. -/
def DoctypeState.ofDeclaration (s : List Char) : DoctypeState × Nat :=
  let begins (mark : String) : Bool := (dropMark? mark.toList s).isSome
  if begins "?" then (.instruction false, 1)
  else if begins "!--" then (.comment 0, 3)
  else if begins "!ENTITY" || begins "!ATTLIST" || begins "!NOTATION" then (.quoting none, 0)
  else (.plain, 0)

/-- The quote that is open after `c`. -/
def quoteAfter (quote? : Option Char) (c : Char) : Option Char :=
  match quote? with
  | some quote => if c = quote then none else some quote
  | none => if isQuote c then some c else none

/-- The state after a character, `none` at the end of the document type, and how many of the
characters that follow are to be skipped. -/
def DoctypeState.step (state : DoctypeState) (c : Char) (s : List Char) :
    Option (DoctypeState × Nat) :=
  match state with
  | .head none =>
    if c = '>' then none
    else if c = '[' then some (.declarations, 0)
    else some (.head (quoteAfter none c), 0)
  | .head (some quote) => some (.head (quoteAfter (some quote) c), 0)
  | .declarations =>
    if c = ']' then some (.tail, 0)
    else if c = '<' then some (DoctypeState.ofDeclaration s)
    else some (.declarations, 0)
  | .plain => some (if c = '>' then .declarations else .plain, 0)
  | .quoting none => some (if c = '>' then .declarations else .quoting (quoteAfter none c), 0)
  | .quoting (some quote) => some (.quoting (quoteAfter (some quote) c), 0)
  | .instruction question =>
    some (if question && c = '>' then .declarations else .instruction (c = '?'), 0)
  | .comment dashes =>
    if c = '-' then some (.comment (min 2 (dashes + 1)), 0)
    else some (if dashes = 2 && c = '>' then .declarations else .comment 0, 0)
  | .tail => if c = '>' then none else some (.tail, 0)

/-- The text of a document type and what follows it. The number counts characters that are still
to be passed over without a look. -/
def cutDoctype? (state : DoctypeState) (skip : Nat) :
    List Char → Option (List Char × List Char)
  | [] => none
  | c :: s =>
    match skip with
    | skip + 1 => (cutDoctype? state skip s).map fun (before, after) => (c :: before, after)
    | 0 =>
      match state.step c s with
      | none => some ([], s)
      | some (state, skip) =>
        (cutDoctype? state skip s).map fun (before, after) => (c :: before, after)

/-- The text after the word `DOCTYPE` in either case. -/
def dropDoctypeWord? (s : List Char) : Option (List Char) :=
  let word := "DOCTYPE".toList
  if (s.take word.length).map Char.toUpper = word then some (s.drop word.length) else none

/-- A document type, after `<!`. -/
def lexDoctype (s : List Char) : Lexeme :=
  match cutDoctype? (.head none) 0 s with
  | none => faulty .unclosedDoctype
  | some (inner, rest) =>
    match dropDoctypeWord? inner with
    | none => faulty .unclosedDoctype
    | some name => if name.all isSpace then faulty .namelessDoctype else (.aside, rest)

/-! ## All items -/

/-- Markup that begins with `<!`. -/
def lexBang (s : List Char) : Lexeme :=
  match s with
  | '-' :: _ => lexComment s
  | '[' :: _ => lexCData s
  | 'D' :: _ | 'd' :: _ => lexDoctype s
  | _ => faulty .unknownMarkup

/-- Markup, after `<`. -/
def lexMarkup (s : List Char) : Lexeme :=
  match s with
  | [] => faulty .unclosedTag
  | '/' :: s => lexClosing s
  | '?' :: s => lexInstruction s
  | '!' :: s => lexBang s
  | _ => lexOpening s

/-- A reference, after `&`. -/
def lexReference (s : List Char) : Lexeme :=
  let inName : Char → Bool := fun c => c != ';' && c != '&' && c != '<'
  match s.dropWhile inName with
  | ';' :: rest => (.reference (s.takeWhile inName), rest)
  | _ => faulty .unclosedReference

/-- The item that begins with the character `c`. -/
def lex (c : Char) (s : List Char) : Lexeme :=
  if c = '<' then lexMarkup s
  else if c = '&' then lexReference s
  else
    let inText : Char → Bool := fun c => c != '<' && c != '&'
    (.text (c :: s.takeWhile inText), s.dropWhile inText)

/-! ## What follows an item is shorter -/

theorem length_lexClosing_le (s : List Char) : (lexClosing s).2.length ≤ s.length := by
  unfold lexClosing
  split
  · next h =>
    have := congrArg List.length (cutTag_eq_ok h)
    simp only [List.length_append, List.length_cons] at this
    simp only
    omega
  · simp [faulty]

theorem length_lexOpening_le (s : List Char) : (lexOpening s).2.length ≤ s.length := by
  unfold lexOpening
  split
  · next h =>
    have := congrArg List.length (cutTag_eq_ok h)
    simp only [List.length_append, List.length_cons] at this
    split <;> simp only <;> omega
  · simp [faulty]

theorem length_cutAt?_le {mark s before after : List Char}
    (h : cutAt? mark s = some (before, after)) : after.length ≤ s.length := by
  have := congrArg List.length (cutAt?_eq_some h)
  simp only [List.length_append] at this
  omega

theorem length_bind_cutAt?_le {first mark s before after : List Char}
    (h : (dropMark? first s).bind (cutAt? mark) = some (before, after)) :
    after.length ≤ s.length := by
  obtain ⟨rest, hrest, hcut⟩ := Option.bind_eq_some_iff.1 h
  have hlength := congrArg List.length (dropMark?_eq_some hrest)
  have := length_cutAt?_le hcut
  simp only [List.length_append] at hlength
  omega

theorem length_lexInstruction_le (s : List Char) : (lexInstruction s).2.length ≤ s.length := by
  unfold lexInstruction
  split
  · simp [faulty]
  · split
    · next h => exact length_cutAt?_le h
    · simp [faulty]

theorem length_lexComment_le (s : List Char) : (lexComment s).2.length ≤ s.length := by
  unfold lexComment
  split
  · next h => exact length_bind_cutAt?_le h
  · simp [faulty]

theorem length_lexCData_le (s : List Char) : (lexCData s).2.length ≤ s.length := by
  unfold lexCData
  split
  · next h => exact length_bind_cutAt?_le h
  · simp [faulty]

theorem length_cutDoctype?_le {state : DoctypeState} {skip : Nat} {s before after : List Char}
    (h : cutDoctype? state skip s = some (before, after)) : after.length ≤ s.length := by
  induction s generalizing state skip before with
  | nil => simp [cutDoctype?] at h
  | cons c s ih =>
    simp only [cutDoctype?] at h
    split at h
    · obtain ⟨⟨b, a⟩, hcut, heq⟩ := Option.map_eq_some_iff.1 h
      cases heq
      exact Nat.le_succ_of_le (ih hcut)
    · split at h
      · cases h
        simp
      · obtain ⟨⟨b, a⟩, hcut, heq⟩ := Option.map_eq_some_iff.1 h
        cases heq
        exact Nat.le_succ_of_le (ih hcut)

theorem length_lexDoctype_le (s : List Char) : (lexDoctype s).2.length ≤ s.length := by
  unfold lexDoctype
  split
  · simp [faulty]
  · next h =>
    have := length_cutDoctype?_le h
    split
    · simp [faulty]
    · split
      · simp [faulty]
      · exact this

theorem length_lexBang_le (s : List Char) : (lexBang s).2.length ≤ s.length := by
  unfold lexBang
  split
  · exact length_lexComment_le _
  · exact length_lexCData_le _
  · exact length_lexDoctype_le _
  · exact length_lexDoctype_le _
  · simp [faulty]

theorem length_lexMarkup_le (s : List Char) : (lexMarkup s).2.length ≤ s.length := by
  unfold lexMarkup
  split
  · simp [faulty]
  · exact Nat.le_succ_of_le (length_lexClosing_le _)
  · exact Nat.le_succ_of_le (length_lexInstruction_le _)
  · exact Nat.le_succ_of_le (length_lexBang_le _)
  · exact length_lexOpening_le _

theorem length_lexReference_le (s : List Char) : (lexReference s).2.length ≤ s.length := by
  have hdrop := length_dropWhile_le (fun c => c != ';' && c != '&' && c != '<') s
  unfold lexReference
  simp only
  split
  · next h =>
    rw [h, List.length_cons] at hdrop
    simp only
    omega
  · simp [faulty]

theorem length_lex_le (c : Char) (s : List Char) : (lex c s).2.length ≤ s.length := by
  unfold lex
  split
  · exact length_lexMarkup_le s
  · split
    · exact length_lexReference_le s
    · exact length_dropWhile_le _ s

/-- The items of a text in order. -/
def scan : List Char → List Item
  | [] => []
  | c :: s => (lex c s).1 :: scan (lex c s).2
termination_by s => s.length
decreasing_by
  have := length_lex_le c s
  simp only [List.length_cons]
  omega

/-- The items of a whole text, which may begin with a byte order mark. -/
def items (s : String) : List Item :=
  match s.toList with
  | c :: rest => if c.toNat = 0xFEFF then scan rest else scan (c :: rest)
  | [] => []

end Calcsheet.Xml
