import Calcsheet.Proofs.Attributes
import Calcsheet.Proofs.Document.Finished
import Calcsheet.Proofs.ReadWritten
import Calcsheet.Proofs.Xml.Continuation

/-!
# Attributes and text with references

The same characters can stand as the value of an attribute and as text in an element. In the text
each reference is resolved by itself, and in the value all are or none is. So an element that has
the characters in both places ends up with the same in both, unless some references in them are to
characters and some are not (`exists_node_decoded`). This holds of an element anywhere in a text.
-/

namespace Calcsheet

/-! ## Closed nodes -/

namespace Builder

variable {b b' : Builder} {id i : NodeId} {node : Node} {name : QName} {attributes : Attributes}

/-- The node with the number is there and closed. -/
def Keeps (b : Builder) (id : NodeId) (node : Node) : Prop :=
  b.nodes[id]? = some node ∧ id ∉ b.opened

theorem Keeps.modify (h : b.Keeps id node) (hi : i ∈ b.opened) (f : Node → Node) :
    (b.nodes.modify i f)[id]? = some node := by
  have other : i ≠ id := fun same => h.2 (same ▸ hi)
  rw [Array.getElem?_modify, if_neg other, h.1]

/-- A new element has the next number and is open inside the others, and closed ones stay. -/
theorem opened_of_openElement (ok : b.openElement name attributes = .ok (id, b')) :
    b'.opened = b.nodes.size :: b.opened ∧
      (∃ node, b'.nodes[b.nodes.size]? = some node ∧ node.attributes = attributes ∧
        node.text = "") ∧
      ∀ i node, b.Keeps i node → b'.nodes[i]? = some node := by
  have old {i : NodeId} {node : Node} (h : b.Keeps i node) : i ≠ b.nodes.size :=
    Nat.ne_of_lt (Array.getElem?_eq_some_iff.1 h.1).1
  unfold openElement at ok
  split at ok
  · next parent outer opened =>
    obtain ⟨-, rfl⟩ := Prod.mk.inj (Except.ok.inj ok)
    refine ⟨rfl, ⟨{ name, attributes, parent? := some parent }, ?_, rfl, rfl⟩,
      fun i node h => ?_⟩
    · rw [Array.getElem?_push, if_pos (Array.size_modify ..).symm]
    · rw [Array.getElem?_push, Array.size_modify, if_neg (old h)]
      exact h.modify (by simp [opened]) _
  · next opened =>
    split at ok
    · obtain ⟨-, rfl⟩ := Prod.mk.inj (Except.ok.inj ok)
      refine ⟨by rw [opened], ⟨{ name, attributes }, ?_, rfl, rfl⟩, fun i node h => ?_⟩
      · rw [Array.getElem?_push, if_pos rfl]
      · rw [Array.getElem?_push, if_neg (old h), h.1]
    · cases ok

theorem Keeps.openElement (h : b.Keeps id node)
    (ok : b.openElement name attributes = .ok (i, b')) : b'.Keeps id node := by
  obtain ⟨opened, -, stays⟩ := opened_of_openElement ok
  refine ⟨stays id node h, ?_⟩
  rw [opened, List.mem_cons, not_or]
  exact ⟨Nat.ne_of_lt (Array.getElem?_eq_some_iff.1 h.1).1, h.2⟩

theorem Keeps.closeElement (h : b.Keeps id node) : b.closeElement.2.Keeps id node := by
  unfold Builder.closeElement
  split
  · next inner outer opened =>
    have closed := h.2
    rw [opened, List.mem_cons, not_or] at closed
    exact ⟨h.modify (by simp [opened]) _, closed.2⟩
  · exact h

theorem Keeps.addText (h : b.Keeps id node) (text : String) : (b.addText text).Keeps id node := by
  unfold Builder.addText
  split
  · next inner outer opened => exact ⟨h.modify (by simp [opened]) _, h.2⟩
  · exact h

/-- A closed node stays as it is, whatever is called. -/
theorem Keeps.call (h : b.Keeps id node) (c : Call) : (b.call c).Keeps id node := by
  cases c with
  | openElement name attributes =>
    rw [Builder.call]
    split
    · next ok => exact h.openElement ok
    · exact h
  | leaf name attributes =>
    rw [Builder.call]
    split
    · next ok =>
      obtain ⟨⟨i, inside⟩, opened, closed⟩ := bind_eq_ok_iff.1 ok
      obtain ⟨-, rfl⟩ := Prod.mk.inj (Except.ok.inj closed)
      exact (h.openElement opened).closeElement
    · exact h
  | addText text => exact h.addText text
  | closeElement => exact h.closeElement

theorem getElem?_add {outer : List NodeId} (opened : b.opened = id :: outer)
    (there : b.nodes[id]? = some node) (text : String) :
    (b.add text []).nodes[id]? = some (node.extend text []) := by
  simp only [add, opened, childIds, Node.ofTrees, Array.append_empty, Array.getElem?_modify,
    if_true, there, Option.map_some]

theorem keeps_closeElement {outer : List NodeId} (opened : b.opened = id :: outer)
    (there : b.nodes[id]? = some node) (once : id ∉ outer) :
    b.closeElement.2.opened = outer ∧
      b.closeElement.2.Keeps id { node with text := Text.trim node.text } := by
  rw [closeElement, opened]
  refine ⟨rfl, ?_, once⟩
  dsimp only
  rw [Array.getElem?_modify, if_pos rfl, there]
  rfl

theorem exists_finish (opened : b.opened = []) (there : b.nodes[id]? = some node) :
    ∃ d, b.finish = .ok d := by
  have some : 0 < b.nodes.size := Nat.zero_lt_of_lt (Array.getElem?_eq_some_iff.1 there).1
  exact ⟨⟨b.nodes, some⟩, finish_eq_ok_iff.2 ⟨opened, rfl⟩⟩

end Builder

namespace Xml

/-- An attribute is stored under the local part of its key, with the references in it resolved. -/
theorem get?_attributes {earlier later : List RawAttribute} {key value tag : List Char}
    (label : List Char) (spelled : Spelled (earlier ++ ⟨key, value⟩ :: later) tag)
    (distinct : ((earlier ++ ⟨key, value⟩ :: later).map RawAttribute.key).Nodup)
    (isAttribute : declaredPrefix? key = none)
    (last : ∀ a ∈ later, declaredPrefix? a.key = none → localPart a.key ≠ localPart key) :
    (Tag.mk label tag).attributes.get? (String.ofList (localPart key)) =
      some (String.ofList (unescape value)) := by
  have read := spelled.attempts true [] (fun _ => ⟨distinct, by simp⟩)
  have raws : ((earlier ++ ⟨key, value⟩ :: later).map some).filterMap id =
      earlier ++ ⟨key, value⟩ :: later := by
    rw [List.filterMap_map]
    exact List.filterMap_some
  have isSome : (declaredPrefix? key).isNone = true := by rw [isAttribute]; rfl
  rw [Tag.attributes]
  dsimp only
  rw [read, raws, List.filter_append, List.filter_cons, if_pos isSome, List.map_append,
    List.map_cons]
  refine (Attributes.records_ofList _).get?_eq_some_iff.2 ⟨_, _, rfl, fun again => ?_⟩
  simp only [List.map_map, List.mem_map, List.mem_filter, Function.comp_apply] at again
  obtain ⟨a, ⟨ha, isAttribute'⟩, same⟩ := again
  exact last a ha (Option.isNone_iff_eq_none.1 isAttribute') (String.ofList_injective same)

end Xml

namespace Worksheet

open Xml

/-- Reading has come through the text without a fault. -/
def Reaches (s : List Char) (p : Progress) : Prop :=
  Progress.steps {} (items (String.ofList s)) = .ok p

namespace Progress

variable {p p' : Progress}

theorem steps_append (first second : List Item) :
    p.steps (first ++ second) = (p.steps first).bind fun p' => p'.steps second := by
  induction first generalizing p with
  | nil => rfl
  | cons item first ih =>
    rw [List.cons_append, steps, steps]
    cases p.step item with
    | error error => rfl
    | ok p => exact ih

theorem ne_fault_of_steps {items : List Item} (h : p.steps items = .ok p') :
    ∀ item ∈ items, ∀ fault, item ≠ .fault fault := by
  induction items generalizing p with
  | nil => simp
  | cons item items ih =>
    rw [steps] at h
    split at h
    · next first =>
      refine List.forall_mem_cons.2 ⟨?_, ih h⟩
      rintro fault rfl
      cases first
    · cases h

/-- A text that goes on with a tag is read from there on. -/
theorem steps_items_append {before : List Char} (h : Reaches before p) (t : List Char) :
    steps {} (items (String.ofList (before ++ '<' :: t))) = p.run ('<' :: t) := by
  have parts : items (String.ofList (before ++ '<' :: t)) =
      items (String.ofList before) ++ scan ('<' :: t) := by
    have whole := ne_fault_of_steps h
    rw [items, String.toList_ofList] at whole ⊢
    rw [items, String.toList_ofList]
    cases before with
    | nil => rfl
    | cons c before =>
      dsimp only [List.cons_append] at whole ⊢
      split at whole
      · next mark => rw [if_pos mark, if_pos mark, scan_append whole]
      · next noMark => rw [if_neg noMark, if_neg noMark, ← List.cons_append, scan_append whole]
  rw [parts, steps_append, h]
  rfl

/-- Reading `s` from `p` on leads to `p'`, and the open element has got the text `t`. -/
structure Takes (p : Progress) (s t : List Char) (p' : Progress) : Prop where
  builder : p'.builder = p.builder.add (String.ofList t) []
  frames : p'.frames = p.frames
  run : ∀ rest, p.run (s ++ rest) = p'.run rest

theorem Takes.trans {s t s' t' : List Char} {p'' : Progress} (inside : p.builder.IsInside)
    (h : p.Takes s t p') (h' : p'.Takes s' t' p'') : p.Takes (s ++ s') (t ++ t') p'' where
  builder := by
    rw [h'.builder, h.builder, Builder.add_add inside, String.ofList_append, List.append_nil]
  frames := h'.frames.trans h.frames
  run rest := by rw [List.append_assoc, h.run, h'.run]

theorem Takes.isInside {s t : List Char} (h : p.Takes s t p') (inside : p.builder.IsInside) :
    p'.builder.IsInside := by
  rw [h.builder]
  exact inside.add _ _

theorem takes_nothing (p : Progress) : p.Takes [] [] p :=
  ⟨by rw [String.ofList_nil, Builder.add_nothing], rfl, fun _ => rfl⟩

theorem takes_raw (inside : p.builder.IsInside) {c : Char} (less : c ≠ '<') (ampersand : c ≠ '&') :
    p.Takes [c] [c] (p.add (String.ofList [c]) []) :=
  ⟨rfl, rfl, run_raw inside less ampersand⟩

theorem takes_known {c : Char} {name : List Char} (refers : Reference c name) :
    p.Takes ('&' :: (name ++ [';'])) [c] (p.add (String.ofList [c]) []) := by
  refine ⟨rfl, rfl, fun rest => ?_⟩
  rw [List.cons_append, List.append_assoc]
  exact run_reference refers rest

theorem exists_takes_unknown {name : List Char} (isName : IsReferenceName name)
    (refersNot : ∀ c, ¬ Reference c name) :
    ∃ p', p.Takes ('&' :: (name ++ [';'])) ('&' :: (name ++ [';'])) p' := by
  refine ⟨p.reference name, ?_, ?_, fun rest => ?_⟩
  · simp only [reference, referenced?_eq_none refersNot, text_eq_add, add]
    rfl
  · simp only [reference, referenced?_eq_none refersNot, text_eq_add, add]
  · rw [List.cons_append, List.append_assoc]
    exact run_of_lex (lex_reference isName rest) rfl

/-- Text in which references come to their ends is taken in decoded. -/
theorem exists_takes {s t : List Char} (inside : p.builder.IsInside) (noMarkup : '<' ∉ s)
    (h : Decoded s t) : ∃ p', p.Takes s t p' := by
  induction h generalizing p with
  | nil => exact ⟨p, takes_nothing p⟩
  | plain notReference _ ih =>
    rw [List.mem_cons, not_or] at noMarkup
    have first := takes_raw inside (Ne.symm noMarkup.1) notReference
    obtain ⟨p', later⟩ := ih (first.isInside inside) noMarkup.2
    exact ⟨p', first.trans inside later⟩
  | @known c name s t refers _ ih =>
    have noMarkup : '<' ∉ s := fun mem => noMarkup (by simp [mem])
    have first : p.Takes ('&' :: (name ++ [';'])) [c] _ := takes_known refers
    obtain ⟨p', later⟩ := ih (first.isInside inside) noMarkup
    have both := first.trans inside later
    rw [List.cons_append, List.append_assoc] at both
    exact ⟨p', both⟩
  | @unknown name s t isName refersNot _ ih =>
    have noMarkup : '<' ∉ s := fun mem => noMarkup (by simp [mem])
    obtain ⟨p₁, first⟩ := exists_takes_unknown (p := p) isName refersNot
    obtain ⟨p', later⟩ := ih (first.isInside inside) noMarkup
    have both := first.trans inside later
    simp only [List.cons_append, List.append_assoc, List.nil_append] at both
    exact ⟨p', both⟩

theorem keeps_steps {id : NodeId} {node : Node} {items : List Item}
    (h : p.builder.Keeps id node) (ok : p.steps items = .ok p') : p'.builder.Keeps id node :=
  steps_invariant (P := fun b => b.Keeps id node) (fun _ c kept => kept.call c) h ok

theorem step_of_run {c : Char} {s : List Char} {item : Item} (hlex : lex c s = (item, []))
    (h : p.run (c :: s) = .ok p') : p.step item = .ok p' := by
  rw [run, scan, hlex, steps] at h
  split at h
  · next next =>
    rw [next, ← h]
    exact (run_nil _).symm
  · cases h

end Progress

/-! ## Elements with text only -/

/-- The tag that opens an element. -/
def openingTag (label tag : List Char) : List Char :=
  '<' :: (label ++ tag ++ ['>'])

/-- The tag that closes an element. -/
def closingTag (label : List Char) : List Char :=
  '<' :: '/' :: (label ++ ['>'])

section Element

variable {before label tag v text : List Char} {raws : List RawAttribute} {p p₁ : Progress}

theorem opening_of_reaches (isLabel : IsLabel label) (spelled : Spelled raws tag)
    (reached : Reaches before p) (opened : Reaches (before ++ openingTag label tag) p₁) :
    p.opening ⟨label, tag⟩ = .ok p₁ := by
  have run := (Progress.steps_items_append reached _).symm.trans opened
  exact Progress.step_of_run (isLabel.lex_opening spelled []) run

theorem run_openingTag (isLabel : IsLabel label) (spelled : Spelled raws tag)
    (opening : p.opening ⟨label, tag⟩ = .ok p₁) (s : List Char) :
    p.run (openingTag label tag ++ s) = p₁.run s := by
  have shape : openingTag label tag ++ s = '<' :: (label ++ tag ++ '>' :: s) := by
    simp [openingTag]
  rw [shape]
  exact Progress.run_of_lex (isLabel.lex_opening spelled s) opening

theorem run_closingTag (isLabel : IsLabel label) {scope : Scope}
    {outer : List (List Char × Scope)} (frames : p.frames = (label, scope) :: outer)
    (s : List Char) : p.run (closingTag label ++ s) = p.leave.run s := by
  have shape : closingTag label ++ s = '<' :: '/' :: (label ++ '>' :: s) := by
    simp [closingTag]
  rw [shape]
  exact Progress.run_of_lex (isLabel.lex_closing s) (Progress.closing_eq frames)

/-- An element with text in it has its text decoded, and is there for good once it is closed. -/
theorem exists_element (isLabel : IsLabel label) (spelled : Spelled raws tag)
    (noMarkup : '<' ∉ v) (decoded : Decoded v text) (reached : Reaches before p)
    (opened : Reaches (before ++ openingTag label tag) p₁) :
    ∃ (node : Node) (inside : Progress),
      node.attributes = (Tag.mk label tag).attributes ∧ node.text = String.ofList text ∧
        Reaches (before ++ openingTag label tag ++ v) inside ∧
        inside.builder.nodes[p.builder.nodes.size]? = some node ∧
        inside.leave.builder.opened = p.builder.opened ∧
        inside.leave.builder.Keeps p.builder.nodes.size { node with text := Text.trim node.text } ∧
        ∀ after, Progress.steps {} (items (String.ofList
          (before ++ openingTag label tag ++ v ++ closingTag label ++ after))) =
            inside.leave.run after := by
  have opening := opening_of_reaches isLabel spelled reached opened
  obtain ⟨name, id, scope, begun, frames⟩ := Progress.exists_openElement_of_opening opening
  obtain ⟨inner, ⟨node, there, attributes, blank⟩, -⟩ := Builder.opened_of_openElement begun
  obtain ⟨calls, called⟩ := Progress.reached_steps reached
  have once : p.builder.nodes.size ∉ p.builder.opened := fun again =>
    Nat.lt_irrefl _ ((called ▸ Builder.coherent_run calls).open_lt _ again)
  have isInside : p₁.builder.IsInside :=
    ⟨_, _, inner, (Array.getElem?_eq_some_iff.1 there).1⟩
  obtain ⟨inside, takes⟩ := Progress.exists_takes isInside noMarkup decoded
  have inner' : inside.builder.opened = p.builder.nodes.size :: p.builder.opened := by
    rw [takes.builder, Builder.opened_add, inner]
  have there' : inside.builder.nodes[p.builder.nodes.size]? =
      some (node.extend (String.ofList text) []) := by
    rw [takes.builder]
    exact Builder.getElem?_add inner there _
  obtain ⟨outer, keeps⟩ := Builder.keeps_closeElement inner' there' once
  -- however the text goes on, it is read through the opening tag and `v`
  have through (s : List Char) : Progress.steps {} (items (String.ofList
      (before ++ openingTag label tag ++ v ++ s))) = inside.run s := by
    rw [List.append_assoc, List.append_assoc]
    refine (Progress.steps_items_append reached _).trans ?_
    exact (run_openingTag isLabel spelled opening (v ++ s)).trans (takes.run s)
  refine ⟨node.extend (String.ofList text) [], inside, attributes, ?_, ?_, there', outer, keeps,
    fun after => ?_⟩
  · show node.text ++ String.ofList text = String.ofList text
    rw [blank, String.empty_append]
  · have reached := through []
    rwa [List.append_nil, Progress.run_nil] at reached
  · rw [List.append_assoc _ (closingTag label), through,
      run_closingTag isLabel (takes.frames.trans frames)]

end Element

/-- Let `v` be the value of an attribute of an element and also all that is in the element, wherever
the element stands. Its text is `v` decoded, and the attribute is the same, unless references in `v`
are to characters and others are not: with one that is not, the attribute stays as it is written.
The text loses the blanks at its ends when the element is closed, and nothing else changes. -/
theorem exists_node_decoded {before label tag key v : List Char} {earlier later : List RawAttribute}
    {p p₁ : Progress} (noMarkup : '<' ∉ v) (terminated : Terminated v) (isLabel : IsLabel label)
    (spelled : Spelled (earlier ++ ⟨key, v⟩ :: later) tag)
    (distinct : ((earlier ++ ⟨key, v⟩ :: later).map RawAttribute.key).Nodup)
    (isAttribute : declaredPrefix? key = none)
    (last : ∀ a ∈ later, declaredPrefix? a.key = none → localPart a.key ≠ localPart key)
    (reached : Reaches before p) (opened : Reaches (before ++ openingTag label tag) p₁) :
    ∃ (node : Node) (value text : List Char),
      node.attributes.get? (String.ofList (localPart key)) = some (String.ofList value) ∧
      node.text = String.ofList text ∧
      (∃ inside, Reaches (before ++ openingTag label tag ++ v) inside ∧
        inside.builder.nodes[p.builder.nodes.size]? = some node) ∧
      (p.builder.opened = [] → ∃ r, read (String.ofList
        (before ++ openingTag label tag ++ v ++ closingTag label)) = .ok r) ∧
      (∀ after r, read (String.ofList
        (before ++ openingTag label tag ++ v ++ closingTag label ++ after)) = .ok r →
          r.value.nodes[p.builder.nodes.size]? = some { node with text := Text.trim node.text }) ∧
      (∀ t, Decoded v t ↔ t = text) ∧
      (value = text ↔ ¬ (HasKnown v ∧ HasUnknown v)) ∧ (HasUnknown v → value = v) := by
  obtain ⟨text, decoded⟩ := terminated.exists_decoded
  obtain ⟨node, inside, attributes, htext, through, there, outer, keeps, closed⟩ :=
    exists_element isLabel spelled noMarkup decoded reached opened
  have stored := get?_attributes label spelled distinct isAttribute last
  refine ⟨node, unescape v, text, by rw [attributes, stored], htext, ⟨inside, through, there⟩,
    fun root => ?_, fun after r ok => ?_,
    fun t => ⟨fun h => h.unique decoded, fun h => h ▸ decoded⟩, decoded.unescape_eq_iff, decoded.unescape_eq_self⟩
  · obtain ⟨d, finished⟩ := Builder.exists_finish (outer.trans root) keeps.1
    have closed := closed []
    rw [List.append_nil, Progress.run_nil] at closed
    exact ⟨{ value := d, warnings := inside.leave.warnings }, by
      simp only [read, closed, Progress.finish, finished]⟩
  · obtain ⟨p', steps, finished⟩ := exists_steps_of_read ok
    have run := (closed after).symm.trans steps
    rw [(Builder.finish_eq_ok_iff.1 finished).2, (Progress.keeps_steps keeps run).1]

/-- A reference to a character and one to nothing. -/
def mixedReferences : List Char := "&#65; &foo;".toList

theorem isReferenceName_foo : IsReferenceName "foo".toList := by
  simp [IsReferenceName]

theorem not_reference_foo (c : Char) : ¬ Reference c "foo".toList := by
  intro refers
  have unknown : referenced? "foo".toList = none := by decide +kernel
  rw [referenced?_eq refers] at unknown
  cases unknown

theorem decoded_mixedReferences : Decoded mixedReferences "A &foo;".toList := by
  have known : Reference 'A' "#65".toList := .decimal [6, 5] (by decide) (by decide)
  exact .known known (.plain (by decide) (.unknown isReferenceName_foo not_reference_foo .nil))

theorem hasUnknown_mixedReferences : HasUnknown mixedReferences :=
  ⟨"foo".toList, ⟨isReferenceName_foo, "&#65; ".toList, [], rfl⟩, not_reference_foo⟩

theorem exists_node_mixedReferences :
    ∃ node : Node, node.attributes.get? "k" = some "&#65; &foo;" ∧ node.text = "A &foo;" ∧
      ∀ after r, read (String.ofList
        ("<r><s/>x<a j='1' k=\"&#65; &foo;\">&#65; &foo;</a>".toList ++ after)) = .ok r →
          r.value.nodes[2]? = some { node with text := Text.trim node.text } := by
  have reaches {s : List Char} {n : Nat}
      (h : ((Progress.steps {} (items (String.ofList s))).toOption.map fun p =>
        p.builder.nodes.size) = some n) : ∃ p, Reaches s p ∧ p.builder.nodes.size = n := by
    obtain ⟨p, ok, size⟩ := Option.map_eq_some_iff.1 h
    exact ⟨p, toOption_eq_some_iff.1 ok, size⟩
  obtain ⟨p, reached, size⟩ := @reaches "<r><s/>x".toList 2 (by decide +kernel)
  obtain ⟨p₁, opened, -⟩ := @reaches
    ("<r><s/>x".toList ++ openingTag "a".toList " j='1' k=\"&#65; &foo;\"".toList) 3
    (by decide +kernel)
  have isLabel : IsLabel "a".toList :=
    ⟨by decide, List.all_eq_true.1 (by decide), by simp, by decide⟩
  have spelled : Spelled ([⟨"j".toList, "1".toList⟩] ++ ⟨"k".toList, mixedReferences⟩ :: [])
      " j='1' k=\"&#65; &foo;\"".toList :=
    @Spelled.cons _ _ _ '\'' _ (by decide) (List.all_eq_true.1 (by decide)) (by decide) (by decide)
      (by decide) (@Spelled.cons _ _ _ '"' _ (by decide) (List.all_eq_true.1 (by decide))
        (by decide) (by decide) (by decide) .nil)
  obtain ⟨node, value, text, stored, htext, -, -, kept, decoded, -, unknown⟩ :=
    exists_node_decoded (by decide) decoded_mixedReferences.terminated isLabel spelled (by decide)
      (by decide) (by simp) reached opened
  rw [size] at kept
  refine ⟨node, ?_, ?_, kept⟩
  · rw [unknown hasUnknown_mixedReferences] at stored
    exact stored
  · rw [htext, ← (decoded _).1 decoded_mixedReferences]
    rfl

/-- With both kinds of references in it an attribute is not like the text. -/
theorem read_attribute_ne_text :
    ∃ r, read "<a k=\"&lt;&foo;\">&lt;&foo;</a>" = .ok r ∧
      r.value.root.attributes.get? "k" = some "&lt;&foo;" ∧ r.value.root.text = "<&foo;" := by
  have both : ((read "<a k=\"&lt;&foo;\">&lt;&foo;</a>").toOption.map fun r =>
      (r.value.root.attributes.get? "k", r.value.root.text)) =
        some (some "&lt;&foo;", "<&foo;") := by
    decide +kernel
  obtain ⟨r, ok, values⟩ := Option.map_eq_some_iff.1 both
  exact ⟨r, toOption_eq_some_iff.1 ok, congrArg Prod.fst values, congrArg Prod.snd values⟩

end Worksheet

end Calcsheet
