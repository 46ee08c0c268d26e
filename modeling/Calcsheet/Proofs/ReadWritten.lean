import Calcsheet.Proofs.Document.Preorder
import Calcsheet.Proofs.Xml.Heads
import Calcsheet.Proofs.Xml.References
import Calcsheet.Worksheet

/-!
# Reading undoes writing

Whatever way a tree is written in, reading gives it back. The proof follows the text: each written
piece has an effect on the progress of reading that does not depend on what comes after it, and the
effect of content is to add its text and its elements to the element that is open (`run_content`).
-/

namespace Calcsheet.Worksheet

open Xml

namespace Progress

/-- How far reading comes from `p` on. -/
def run (p : Progress) (s : List Char) : Except ReadError Progress :=
  p.steps (scan s)

theorem run_of_lex {p p' : Progress} {c : Char} {s rest : List Char} {item : Item}
    (hlex : lex c s = (item, rest)) (hstep : p.step item = .ok p') :
    p.run (c :: s) = p'.run rest := by
  rw [run, scan, hlex, steps, hstep]
  rfl

theorem run_nil (p : Progress) : p.run [] = .ok p := by
  rw [run, scan, steps]

/-- Text and elements have come into the element that is open. -/
def add (p : Progress) (text : String) (es : List Element) : Progress :=
  { p with builder := p.builder.add text es }

theorem add_add {p : Progress} (inside : p.builder.IsInside) (text text' : String)
    (es es' : List Element) :
    (p.add text es).add text' es' = p.add (text ++ text') (es ++ es') := by
  simp only [add, Builder.add_add inside]

theorem add_nothing (p : Progress) : p.add "" [] = p := by
  simp only [add, Builder.add_nothing]

theorem text_eq_add (p : Progress) (chars : List Char) :
    p.text chars = p.add (String.ofList chars) [] := by
  simp only [text, add, Builder.addText_eq_add]

/-! ## Text -/

/-- A run of text may be taken in by parts. -/
theorem run_text {p : Progress} (s : List Char) :
    (p.text (s.takeWhile fun c => c != '<' && c != '&')).run
      (s.dropWhile fun c => c != '<' && c != '&') = p.run s := by
  have nothing : p.text [] = p := by
    rw [text_eq_add, String.ofList_nil, add_nothing]
  cases s with
  | nil => rw [List.takeWhile_nil, List.dropWhile_nil, nothing]
  | cons c s =>
    by_cases hc : (c != '<' && c != '&') = true
    · simp only [List.takeWhile_cons, List.dropWhile_cons, hc, if_true]
      have hc' : c ≠ '<' ∧ c ≠ '&' := by simpa using hc
      exact (run_of_lex (by rw [lex, if_neg hc'.1, if_neg hc'.2]) rfl).symm
    · simp only [List.takeWhile_cons, List.dropWhile_cons, hc, Bool.false_eq_true, if_false,
        nothing]

theorem run_raw {p : Progress} (inside : p.builder.IsInside) {c : Char} (lt : c ≠ '<')
    (amp : c ≠ '&') (s : List Char) : p.run (c :: s) = (p.add (String.ofList [c]) []).run s := by
  have first : p.run (c :: s) = (p.text (c :: s.takeWhile fun c => c != '<' && c != '&')).run
      (s.dropWhile fun c => c != '<' && c != '&') :=
    run_of_lex (by rw [lex, if_neg lt, if_neg amp]) rfl
  have parts : p.text (c :: s.takeWhile fun c => c != '<' && c != '&') =
      (p.add (String.ofList [c]) []).text (s.takeWhile fun c => c != '<' && c != '&') := by
    simp only [text_eq_add, add_add inside, ← String.ofList_append, List.singleton_append,
      List.append_nil]
  rw [first, parts, run_text]

theorem run_reference {p : Progress} {c : Char} {name : List Char} (refers : Reference c name)
    (s : List Char) : p.run ('&' :: (name ++ ';' :: s)) = (p.add (String.ofList [c]) []).run s := by
  refine run_of_lex (lex_reference refers.isReferenceName s) ?_
  simp only [step, reference, referenced?_eq refers, text_eq_add]

theorem run_cdata {p : Progress} {chars : List Char} (noEnd : ¬ "]]>".toList <:+: chars)
    (s : List Char) :
    p.run ("<![CDATA[".toList ++ chars ++ "]]>".toList ++ s) =
      (p.add (String.ofList chars) []).run s := by
  have hlex : lexCData ("[CDATA[".toList ++ (chars ++ "]]>".toList ++ s)) = (.text chars, s) := by
    have cut : cutAt? "]]>".toList (chars ++ "]]>".toList ++ s) = some (chars, s) :=
      cutAt?_append (by decide) noEnd s
    simp only [lexCData, dropMark?_append, Option.bind_some, cut]
  exact run_of_lex (c := '<') hlex (by rw [step, text_eq_add])

theorem run_comment {p : Progress} {body : List Char} (noEnd : ¬ "--".toList <:+: body)
    (s : List Char) : p.run ("<!--".toList ++ body ++ "-->".toList ++ s) = p.run s := by
  have noEnd : ¬ "-->".toList <:+: body := by
    rintro ⟨before, after, rfl⟩
    exact noEnd ⟨before, '>' :: after, by simp⟩
  have hlex : lexComment ("--".toList ++ (body ++ "-->".toList ++ s)) = (.aside, s) := by
    have cut : cutAt? "-->".toList (body ++ "-->".toList ++ s) = some (body, s) :=
      cutAt?_append (by decide) noEnd s
    simp only [lexComment, dropMark?_append, Option.bind_some, cut]
  exact run_of_lex (c := '<') hlex rfl

theorem run_charWritten {p : Progress} (inside : p.builder.IsInside) {c : Char} {w : List Char}
    (h : CharWritten ['<', '&'] c w) (s : List Char) :
    p.run (w ++ s) = (p.add (String.ofList [c]) []).run s := by
  cases h with
  | raw plain =>
    simp only [List.mem_cons, List.not_mem_nil, or_false, not_or] at plain
    exact run_raw inside plain.1 plain.2 s
  | reference refers => simpa using run_reference refers s

/-- Text comes into the open element as it was meant, however it is written. -/
theorem run_textWritten {p : Progress} (inside : p.builder.IsInside) {chars w : List Char}
    (h : TextWritten chars w) (s : List Char) :
    p.run (w ++ s) = (p.add (String.ofList chars) []).run s := by
  induction h generalizing p with
  | nil => rw [List.nil_append, String.ofList_nil, add_nothing]
  | @char c _ cs _ first rest ih =>
    rw [List.append_assoc, run_charWritten inside first, ih (inside.add _ _), add_add inside,
      ← String.ofList_append, List.singleton_append, List.append_nil]
  | cdata noEnd rest ih =>
    rw [List.append_assoc, run_cdata noEnd, ih (inside.add _ _), add_add inside,
      ← String.ofList_append, List.append_nil]

/-! ## Elements -/

section Elements

variable {p : Progress} {scope : Scope} {bindings declared : Bindings} {name : QName}
  {attributes : List (String × String)} {label tag : List Char} {id : NodeId} {b : Builder}

theorem opening_eq (head : HeadWritten bindings declared name attributes label tag)
    (labels : (declared.map Prod.fst).Nodup) (enter : p.scope.enter ⟨label, tag⟩ = .ok scope)
    (knows : Knows scope bindings)
    (opened : p.builder.openElement name ⟨attributes⟩ = .ok (id, b)) :
    p.opening ⟨label, tag⟩ =
      .ok { builder := b, frames := (label, scope) :: p.frames, warnings := p.warnings } := by
  have attributes := attributes_eq label labels head.distinct head.tag
  simp only [opening, enter, head.name.resolve_eq knows, attributes, opened, List.append_nil]

/-- The open element is a part of a document with the given prefixes. -/
structure IsReady (p : Progress) (bindings : Bindings) : Prop where
  inside : p.builder.IsInside
  knows : Knows p.scope bindings

theorem IsReady.add (ready : p.IsReady bindings) (text : String) (es : List Element) :
    (p.add text es).IsReady bindings :=
  ⟨ready.inside.add text es, ready.knows⟩

/-- An element that is opened and filled is one more element of the open one once it is closed. -/
theorem IsReady.exists_opening (ready : p.IsReady bindings)
    (head : HeadWritten bindings [] name attributes label tag) :
    ∃ p', p.opening ⟨label, tag⟩ = .ok p' ∧ p'.IsReady bindings ∧
      (∃ scope, p'.frames = (label, scope) :: p.frames) ∧
      ∀ text es, (p'.add text es).leave = p.add "" [.mk name ⟨attributes⟩ (Text.trim text) es] := by
  obtain ⟨id, b, opened, inside, closed⟩ :=
    Builder.exists_openElement ready.inside name ⟨attributes⟩
  refine ⟨_, opening_eq head (by simp) (enter_of_tagWritten head.tag _) ready.knows opened,
    ⟨inside, ready.knows⟩, ⟨_, rfl⟩, fun text es => ?_⟩
  simp only [leave, Progress.add, closed, List.tail_cons]

theorem closing_eq {outer : List (List Char × Scope)}
    (frames : p.frames = (label, scope) :: outer) : p.closing label = .ok p.leave := by
  simp only [closing, frames, if_true]

theorem run_single {p' : Progress} (head : HeadWritten bindings declared name attributes label tag)
    (knows : Knows scope bindings) (opening : p.opening ⟨label, tag⟩ = .ok p') (s : List Char) :
    p.run ('<' :: label ++ tag ++ "/>".toList ++ s) = p'.leave.run s :=
  run_of_lex (head.lex_single knows s) (by rw [step, opening]; rfl)

/-- Two tags with content between them open an element, fill it and close it. -/
theorem run_paired {p' : Progress} (head : HeadWritten bindings declared name attributes label tag)
    (opening : p.opening ⟨label, tag⟩ = .ok p') (ready : p'.IsReady bindings)
    {outer : List (List Char × Scope)} (frames : p'.frames = (label, scope) :: outer)
    {w : List Char} {text : String} {es : List Element}
    (inside : ∀ s, p'.run (w ++ s) = (p'.add text es).run s) (s : List Char) :
    p.run ('<' :: label ++ tag ++ '>' :: w ++ "</".toList ++ label ++ '>' :: s) =
      (p'.add text es).leave.run s := by
  have frames : (p'.add text es).frames = (label, scope) :: outer := frames
  calc p.run ('<' :: label ++ tag ++ '>' :: w ++ "</".toList ++ label ++ '>' :: s)
      = p.run ('<' :: (label ++ tag ++ '>' :: (w ++ '<' :: '/' :: (label ++ '>' :: s)))) := by
        simp
    _ = p'.run (w ++ '<' :: '/' :: (label ++ '>' :: s)) :=
        run_of_lex (head.lex_opening ready.knows _) opening
    _ = (p'.add text es).run ('<' :: '/' :: (label ++ '>' :: s)) := inside _
    _ = (p'.add text es).leave.run s :=
        run_of_lex (head.lex_closing ready.knows s) (closing_eq frames)

/-- Content comes into the open element as it was meant, however it is written. -/
theorem run_content {content : List Content} {w : List Char} (ready : p.IsReady bindings)
    (h : ContentWritten bindings content w) (s : List Char) :
    p.run (w ++ s) = (p.add (Content.textOf content) (Content.elements content)).run s := by
  induction h generalizing p s with
  | nil => rw [List.nil_append, Content.textOf, Content.elements, add_nothing]
  | comment noEnd _ ih => rw [List.append_assoc, run_comment noEnd, ih ready]
  | text written _ ih =>
    rw [List.append_assoc, run_textWritten ready.inside written, String.ofList_toList,
      ih (ready.add _ _), add_add ready.inside, Content.textOf, Content.elements, Content.element?]
    rfl
  | single head _ ih =>
    obtain ⟨p', opening, -, -, left⟩ := ready.exists_opening head
    have left := left "" []
    rw [add_nothing] at left
    rw [List.append_assoc, run_single head ready.knows opening, left, ih (ready.add _ _),
      add_add ready.inside, Content.textOf, Content.elements, Content.element?,
      String.empty_append]
    rfl
  | @paired _ _ _ _ _ _ _ w head _ _ ihInside ih =>
    obtain ⟨p', opening, ready', ⟨scope, frames⟩, left⟩ := ready.exists_opening head
    rw [List.append_assoc]
    refine (run_paired head opening ready' frames (ihInside ready') (w ++ s)).trans ?_
    rw [left, ih (ready.add _ _), add_add ready.inside, Content.textOf, Content.elements,
      Content.element?, String.empty_append]
    rfl

end Elements

theorem exists_opening_root {bindings : Bindings} {name : QName}
    {attributes : List (String × String)} {label tag : List Char}
    (labels : (bindings.map Prod.fst).Nodup)
    (head : HeadWritten bindings bindings name attributes label tag) :
    ∃ p scope, Progress.opening {} ⟨label, tag⟩ = .ok p ∧ p.IsReady bindings ∧
      p.frames = [(label, scope)] ∧
      ∀ text es, ∃ d, (p.add text es).leave.finish = .ok { value := d, warnings := [] } ∧
        d.root = .mk name ⟨attributes⟩ (Text.trim text) es := by
  obtain ⟨id, b, opened, inside, closed⟩ := Builder.exists_openElement_empty name ⟨attributes⟩
  obtain ⟨scope, enter, knows⟩ := exists_enter_initial labels head.tag
  refine ⟨_, _, opening_eq head labels enter knows opened, ⟨inside, knows⟩, rfl, fun text es => ?_⟩
  obtain ⟨d, finished, root⟩ := closed text es
  refine ⟨d, ?_, root⟩
  simp only [finish, leave, add, finished]

end Progress

theorem read_of_run {s : List Char} {p : Progress} {r : Converted Document}
    (first : s.head? = some '<') (reached : Progress.run {} s = .ok p)
    (finished : p.finish = .ok r) : read (String.ofList s) = .ok r := by
  obtain ⟨rest, rfl⟩ : ∃ rest, s = '<' :: rest := by
    cases s with
    | nil => simp at first
    | cons c rest => exact ⟨rest, by simpa using first⟩
  have noMark : ¬ '<'.toNat = 0xFEFF := by decide
  rw [Progress.run] at reached
  simp only [read, items, String.toList_ofList, if_neg noMark, reached, finished]

/-- A document that was written in any of the allowed ways is read, without warnings, as the tree
that was written. -/
theorem exists_read_of_documentWritten {name : QName} {attributes : List (String × String)}
    {content : List Content} {s : List Char} (h : DocumentWritten name attributes content s) :
    ∃ d : Document, read (String.ofList s) = .ok { value := d, warnings := [] } ∧
      d.root = .mk name ⟨attributes⟩ (Text.trim (Content.textOf content))
        (Content.elements content) := by
  cases h with
  | single labels head =>
    obtain ⟨p, scope, opening, ready, -, closed⟩ := Progress.exists_opening_root labels head
    obtain ⟨d, finished, root⟩ := closed "" []
    rw [Progress.add_nothing] at finished
    refine ⟨d, ?_, root⟩
    have reached := Progress.run_single head ready.knows opening []
    rw [List.append_nil, Progress.run_nil] at reached
    exact read_of_run rfl reached finished
  | paired labels head inside =>
    obtain ⟨p, scope, opening, ready, frames, closed⟩ := Progress.exists_opening_root labels head
    obtain ⟨d, finished, root⟩ := closed (Content.textOf content) (Content.elements content)
    refine ⟨d, ?_, root⟩
    have reached := Progress.run_paired head opening ready frames
      (Progress.run_content ready inside) []
    rw [Progress.run_nil] at reached
    exact read_of_run rfl reached finished

/-- A sheet with text in every spelling around two elements. -/
def mixedSheet : List Char :=
  "<w:worksheet xmlns:w=\"http://schemas.mathsoft.com/worksheet30\" note='&quot;a' ".toList ++
  "xmlns:ml='http://schemas.mathsoft.com/math30'> &#x3C;<!-- - --><![CDATA[&amp;]]>".toList ++
  "<ml:id/>b&#38;<extra></extra></w:worksheet>".toList

/-- What is in the sheet. -/
def mixedContent : List Content :=
  [.text " <", .text "&amp;", .element (.bound Vocabulary.math.uri "id") [] [], .text "b&",
    .element (.unbound "extra") [] []]

/-- The prefixes of the sheet. -/
def mixedBindings : Bindings :=
  [("w".toList, .worksheet), ("ml".toList, .math)]

theorem contentWritten_mixedSheet :
    ContentWritten mixedBindings mixedContent
      " &#x3C;<!-- - --><![CDATA[&amp;]]><ml:id/>b&#38;<extra></extra>".toList := by
  have first : TextWritten " <".toList " &#x3C;".toList :=
    .char (.raw (by decide)) (.char (.reference (.hexadecimal [(false, 3), (true, 12)] (by decide)
      (by decide))) .nil)
  have cdata : TextWritten "&amp;".toList "<![CDATA[&amp;]]>".toList :=
    @TextWritten.cdata "&amp;".toList [] [] (by decide) .nil
  have second : TextWritten "b&".toList "b&#38;".toList :=
    .char (.raw (by decide)) (.char (.reference (.decimal [3, 8] (by decide) (by decide))) .nil)
  have id : HeadWritten mixedBindings [] (.bound Vocabulary.math.uri "id") [] "ml:id".toList [] :=
    ⟨.bound (.tail _ (.head _)) (by decide), by decide, .nil⟩
  have extra : HeadWritten mixedBindings [] (.unbound "extra") [] "extra".toList [] :=
    ⟨.unbound (by decide), by decide, .nil⟩
  have written := ContentWritten.text first (@ContentWritten.comment _ " - ".toList _ _ (by decide)
    (.text cdata (.single id (.text second (.paired extra .nil .nil)))))
  refine Eq.subst (motive := ContentWritten _ _) ?_ written
  decide +kernel

theorem documentWritten_mixedSheet :
    DocumentWritten (.bound Vocabulary.worksheet.uri "worksheet") [("note", "\"a")] mixedContent
      mixedSheet := by
  have value : ValueWritten "\"a".toList "&quot;a".toList :=
    .char (.reference (@Reference.entity '"' "quot" (by decide))) (.char (.raw (by decide)) .nil)
  have tag := @TagWritten.declaration "w".toList .worksheet _ _ '"' _ (by decide) (by decide)
    (@TagWritten.entry "note" "\"a" _ _ '\'' _ _ (by decide) (by decide) value
      (@TagWritten.declaration "ml".toList .math _ _ '\'' _ (by decide) (by decide) .nil))
  have head : HeadWritten mixedBindings mixedBindings (.bound Vocabulary.worksheet.uri "worksheet")
      [("note", "\"a")] "w:worksheet".toList _ :=
    ⟨.bound (.head _) (by decide), by decide, tag⟩
  have written := DocumentWritten.paired (by decide) head contentWritten_mixedSheet
  refine Eq.subst (motive := DocumentWritten _ _ _) ?_ written
  decide +kernel

theorem exists_read_mixedSheet :
    DocumentWritten (.bound Vocabulary.worksheet.uri "worksheet") [("note", "\"a")] mixedContent
        mixedSheet ∧
      ∃ d : Document, read (String.ofList mixedSheet) = .ok { value := d, warnings := [] } ∧
        d.root = .mk (.bound Vocabulary.worksheet.uri "worksheet") ⟨[("note", "\"a")]⟩ "<&amp;b&"
          [.mk (.bound Vocabulary.math.uri "id") ⟨[]⟩ "" [],
            .mk (.unbound "extra") ⟨[]⟩ "" []] := by
  have text : Text.trim (Content.textOf mixedContent) = "<&amp;b&" := by decide +kernel
  have blank : Text.trim "" = "" := by decide +kernel
  have elements : Content.elements mixedContent =
      [.mk (.bound Vocabulary.math.uri "id") ⟨[]⟩ "" [], .mk (.unbound "extra") ⟨[]⟩ "" []] := by
    simp [mixedContent, Content.elements, Content.element?, Content.textOf, blank]
  have reading := exists_read_of_documentWritten documentWritten_mixedSheet
  rw [text, elements] at reading
  exact ⟨documentWritten_mixedSheet, reading⟩

end Calcsheet.Worksheet
