import Calcsheet.Proofs.Code.Layout
import Calcsheet.Proofs.Code.MemberRules
import Calcsheet.Proofs.Code.Words

/-!
# Units stay in comments

The unit in which an evaluation shows its result comes into the code as a comment: behind the field
that holds the result, or on a line of its own before a matrix (`assignment_cases`). As lines of text
the code is the same but for that comment exactly if the unit, and the field where it stands behind
one, are each on one line (`exists_plain_assignment`). Names and numbers without line breaks in them
are enough for that (`avoids_lineBreaks_render`). A unit with a newline in it ends the comment, and
its rest is read as code (`unit_escapes_comment`).
-/

namespace Calcsheet

/-! ## The lines of a text -/

namespace Text

/-- The characters that end a line of code. -/
def lineBreaks : List Char :=
  ['\n', '\r', '\x85', '\u2028', '\u2029']

/-- There is no newline in the text. -/
def OneLine (s : String) : Prop :=
  '\n' ∉ s.toList

/-- The lines of a text, each up to its newline. -/
def lines (s : String) : List String :=
  (s.toList.splitOn '\n').dropLast.map String.ofList

@[simp] theorem oneLine_append {s t : String} : OneLine (s ++ t) ↔ OneLine s ∧ OneLine t := by
  simp [OneLine, not_or]

theorem oneLine_spaces (n : Nat) : OneLine (spaces n) := by
  simp [OneLine, spaces]

theorem oneLine_of_avoids {s : String} (h : avoids lineBreaks s = true) : OneLine s :=
  fun newline => avoids_iff.1 h '\n' newline (by decide)

theorem lines_newline (s : String) :
    lines (s ++ "\n") = (s.toList.splitOn '\n').map String.ofList := by
  have chars : (s ++ "\n").toList = s.toList ++ ['\n'] := by simp
  rw [lines, chars, List.splitOn_append_cons_self, List.splitOn_nil, List.dropLast_concat]

/-- What follows a newline begins with a line of its own. -/
theorem lines_newline_append (s t : String) :
    lines (s ++ "\n" ++ t) = lines (s ++ "\n") ++ lines t := by
  have chars : (s ++ "\n" ++ t).toList = s.toList ++ '\n' :: t.toList := by simp
  rw [lines_newline, lines, chars, List.splitOn_append_cons_self,
    List.dropLast_append_of_ne_nil (List.splitOn_ne_nil '\n' t.toList), List.map_append, lines]

theorem lines_newline_eq_singleton_iff {s line : String} :
    lines (s ++ "\n") = [line] ↔ OneLine s ∧ line = s := by
  rw [lines_newline]
  constructor
  · intro h
    obtain ⟨piece, pieces, rfl⟩ := List.map_eq_singleton_iff.1 h
    have whole : piece = s.toList := by
      have joined : ['\n'].intercalate (s.toList.splitOn '\n') = s.toList :=
        List.intercalate_splitOn '\n'
      rw [pieces] at joined
      simpa using joined
    refine ⟨fun newline => ?_, by rw [whole, String.ofList_toList]⟩
    obtain ⟨before, after, chars⟩ := List.append_of_mem newline
    rw [chars, List.splitOn_append_cons_self] at pieces
    have count := congrArg List.length pieces
    have first := List.length_pos_of_ne_nil (List.splitOn_ne_nil '\n' before)
    have second := List.length_pos_of_ne_nil (List.splitOn_ne_nil '\n' after)
    simp only [List.length_append, List.length_singleton] at count
    omega
  · rintro ⟨oneLine, rfl⟩
    rw [List.splitOn_eq_singleton oneLine, List.map_singleton, String.ofList_toList]

end Text

namespace Code

open Text (OneLine lines spaces avoids lineBreaks)

/-- The lines of code that stands at a level. -/
def linesAt (width level : Nat) (code : List Piece) : List String :=
  lines (writtenText width (Piece.recordsAll level code))

theorem linesAt_line_cons {width level : Nat} {text : String} (inked : text ≠ "")
    (rest : List Piece) :
    linesAt width level (.line text :: rest) =
      lines (spaces (level * width) ++ text ++ "\n") ++ linesAt width level rest := by
  rw [linesAt, Piece.recordsAll, Piece.records, List.singleton_append, writtenText,
    Writer.lineText, if_neg inked, Text.lines_newline_append, linesAt]

theorem linesAt_line {width level : Nat} {text : String} (inked : text ≠ "") :
    linesAt width level [.line text] = lines (spaces (level * width) ++ text ++ "\n") := by
  have none : linesAt width level [] = [] := rfl
  rw [linesAt_line_cons inked, none, List.append_nil]

/-! ## The comment in the code -/

/-- What a field holds to show the outcome. A matrix is no field. -/
def Outcome.field? : Outcome → Option Fragment
  | .scalar f | .complex f => some f
  | .matrix _ => none

/-- The code is the same but for a comment, which is put behind the only line, or on a line of its
own before a matrix. -/
inductive CommentOnly (indent comment : String) (shown : Outcome) : List String → List String → Prop
  | behind {f line} (field : shown.field? = some f) :
      CommentOnly indent comment shown [line] [line ++ " " ++ comment]
  | before {code} (matrix : shown.field? = none) :
      CommentOnly indent comment shown code ((indent ++ comment) :: code)

/-- The declaration of a field without a comment. -/
def fieldText (type : String) (target f : Fragment) : String :=
  "public " ++ type ++ " " ++ target.render ++ " = " ++ f.render ++ ";"

theorem fieldLine_none (type : String) (target f : Fragment) :
    assignment.fieldLine target none type f = .line (fieldText type target f) := by
  rw [assignment.fieldLine, String.append_empty, fieldText]

theorem fieldLine_some (type : String) (target unit f : Fragment) :
    assignment.fieldLine target (some unit) type f =
      .line (fieldText type target f ++ " " ++ unitComment unit) := by
  rw [assignment.fieldLine, fieldText, ← String.append_assoc]

theorem oneLine_fieldText_iff {type : String} {target f : Fragment} (htype : OneLine type) :
    OneLine (fieldText type target f) ↔ OneLine target.render ∧ OneLine f.render := by
  have fixed : OneLine "public " ∧ OneLine " " ∧ OneLine " = " ∧ OneLine ";" := by
    simp [OneLine]
  simp [fieldText, fixed, htype]

/-- A field has the unit behind it, and a matrix has it before its own code. -/
theorem assignment_cases {target unit : Fragment} {shown : Outcome} {code : List Piece}
    (h : assignment target (some unit) shown = .ok code) :
    (∃ f type, shown.field? = some f ∧ OneLine type ∧
      assignment target none shown = .ok [.line (fieldText type target f)] ∧
      code = [.line (fieldText type target f ++ " " ++ unitComment unit)]) ∨
    (∃ plain, shown.field? = none ∧ assignment target none shown = .ok plain ∧
      code = .line (unitComment unit) :: plain) := by
  cases shown with
  | scalar f =>
    obtain rfl := Except.ok.inj h
    exact .inl ⟨f, "double", rfl, by simp [OneLine], by rw [assignment, fieldLine_none],
      by rw [fieldLine_some]⟩
  | complex f =>
    obtain rfl := Except.ok.inj h
    exact .inl ⟨f, "Complex", rfl, by simp [OneLine], by rw [assignment, fieldLine_none],
      by rw [fieldLine_some]⟩
  | matrix e =>
    simp only [assignment, bind_eq_ok_iff, Except.ok.injEq] at h
    obtain ⟨plain, ok, rfl⟩ := h
    refine .inr ⟨plain, rfl, ?_, rfl⟩
    rw [assignment, ok]
    rfl

section CommentOnly

variable {indent comment : String} {shown : Outcome} {plain code : List String}

theorem commentOnly_iff_of_field {f : Fragment} (field : shown.field? = some f) :
    CommentOnly indent comment shown plain code ↔
      ∃ line, plain = [line] ∧ code = [line ++ " " ++ comment] := by
  constructor
  · intro h
    cases h with
    | behind => exact ⟨_, rfl, rfl⟩
    | before matrix => simp [field] at matrix
  · rintro ⟨line, rfl, rfl⟩
    exact .behind field

theorem commentOnly_iff_of_matrix (matrix : shown.field? = none) :
    CommentOnly indent comment shown plain code ↔ code = (indent ++ comment) :: plain := by
  constructor
  · intro h
    cases h with
    | behind field => simp [matrix] at field
    | before => rfl
  · rintro rfl
    exact .before matrix

end CommentOnly

theorem oneLine_unitComment_iff {unit : Fragment} :
    OneLine (unitComment unit) ↔ OneLine unit.render := by
  have fixed : OneLine "// unit: " := by simp [OneLine]
  simp [unitComment, fixed]

/-- The code with a unit is the code without one but for the comment, exactly if the unit is on one
line, and with it the field behind which it stands. -/
theorem exists_plain_assignment {target unit : Fragment} {shown : Outcome} {code : List Piece}
    (h : assignment target (some unit) shown = .ok code) :
    ∃ plain, assignment target none shown = .ok plain ∧ ∀ width level,
      (CommentOnly (spaces (level * width)) (unitComment unit) shown (linesAt width level plain)
          (linesAt width level code) ↔
        OneLine unit.render ∧
          ∀ f ∈ shown.field?, OneLine target.render ∧ OneLine f.render) := by
  rcases assignment_cases h with ⟨f, type, field, htype, ok, rfl⟩ | ⟨plain, matrix, ok, rfl⟩
  · refine ⟨_, ok, fun width level => ?_⟩
    have indented := Text.oneLine_spaces (level * width)
    rw [linesAt_line (by simp [fieldText]), linesAt_line (by simp [fieldText]),
      commentOnly_iff_of_field field]
    simp only [Text.lines_newline_eq_singleton_iff, Text.oneLine_append, oneLine_unitComment_iff,
      oneLine_fieldText_iff htype, field, Option.mem_some_iff, forall_eq']
    constructor
    · rintro ⟨_, ⟨⟨-, onField⟩, -⟩, ⟨-, -, onUnit⟩, -⟩
      exact ⟨onUnit, onField⟩
    · rintro ⟨onUnit, onField⟩
      have blank : OneLine " " := by simp [OneLine]
      exact ⟨_, ⟨⟨indented, onField⟩, rfl⟩, ⟨indented, ⟨onField, blank⟩, onUnit⟩,
        by simp [String.append_assoc]⟩
  · refine ⟨plain, ok, fun width level => ?_⟩
    have indented := Text.oneLine_spaces (level * width)
    rw [linesAt_line_cons (by simp [unitComment]), commentOnly_iff_of_matrix matrix,
      ← List.singleton_append, List.append_cancel_right_eq, Text.lines_newline_eq_singleton_iff,
      Text.oneLine_append, oneLine_unitComment_iff]
    simp [indented, matrix]

/-! ## Names and numbers without line breaks -/

theorem worded_complexLiteral {position : Position} {e : Element} {f : Fragment}
    (h : complexLiteral position e = .ok f) : Worded e f := by
  obtain ⟨re, im, hre, him, rfl⟩ := complexLiteral_eq_ok_iff.1 h
  have real : re.kind = .real := by simpa using List.find?_some hre
  have imag : im.kind = .imag := by simpa using List.find?_some him
  have below {d : Element} (hd : d ∈ e.children) : d = e ∨ d ∈ e.descendants :=
    .inr (Element.mem_descendants_of_mem_children hd)
  exact .complex (.atom (.number (below (List.mem_of_find?_eq_some hre)) (.inl real)))
    (.atom (.number (below (List.mem_of_find?_eq_some him)) (.inr imag)))

theorem worded_unitOf {e : Element} {unit : Fragment} (h : unitOf e = .ok unit) :
    Worded e unit := by
  unfold unitOf at h
  split at h
  · next d children =>
    split at h
    · exact (worded_value h).above
        (Element.mem_descendants_of_mem_children (by simp [children]))
    · cases h
  · cases h

theorem worded_outcome {result : Element} {shown : Outcome} (h : outcome result = .ok shown)
    {f : Fragment} (field : shown.field? = some f) : Worded result f := by
  cases OutcomeRule.of_outcome h with
  | real children kind ok =>
    obtain rfl := Option.some.inj field
    exact (worded_value ok).above (Element.mem_descendants_of_mem_children (by simp [children]))
  | @united united magnitude _ _ children kind parts kinds ok =>
    obtain rfl := Option.some.inj field
    have hunited : united ∈ result.children := by simp [children]
    have hmagnitude : magnitude ∈ united.children := by simp [parts]
    exact (worded_value ok).above
      (Element.mem_descendants_of_mem_children_children hunited hmagnitude)
  | complex children kind ok =>
    obtain rfl := Option.some.inj field
    exact (worded_complexLiteral ok).above
      (Element.mem_descendants_of_mem_children (by simp [children]))
  | matrix => cases field

theorem avoids_lineBreaks_render {e : Element} {f : Fragment} (h : Worded e f)
    (clean : Avoids lineBreaks e) : avoids lineBreaks f.render = true := by
  have own : ∀ word ∈ ownWords, avoids lineBreaks word = true :=
    List.all_eq_true.1 (by decide)
  have apart : ∀ c ∈ Fragment.punctuation, c ∉ lineBreaks := by
    have all : Fragment.punctuation.all (fun c => !lineBreaks.contains c) = true := by decide
    simpa using all
  exact (Fragment.avoids_render_iff apart).2 (h.avoids own clean)

/-! ## Evaluations -/

/-- An evaluation that shows its result in a unit also succeeds without the unit. Its lines are then
the same but for the comment, exactly if the unit is on one line, and with it the field behind which
it stands. Names and numbers without line breaks are enough for that. -/
theorem commentOnly_of_evaluation {name : QName} {attributes : Attributes} {text : String}
    {target override result : Element} {code : List Piece} {warnings : List Warning}
    (h : evaluation (.mk name attributes text [target, override, result]) = .ok (code, warnings)) :
    ∃ plain assignee unit shown,
      evaluation (.mk name attributes text [target, result]) = .ok (plain, []) ∧
      value target = .ok assignee ∧ unitOf override = .ok unit ∧ outcome result = .ok shown ∧
      (∀ width level,
        CommentOnly (spaces (level * width)) ("// unit: " ++ unit.render) shown
            (linesAt width level plain) (linesAt width level code) ↔
          OneLine unit.render ∧
            ∀ f ∈ shown.field?, OneLine assignee.render ∧ OneLine f.render) ∧
      (Avoids lineBreaks target → Avoids lineBreaks override → Avoids lineBreaks result →
        avoids lineBreaks unit.render = true ∧ ∀ width level,
          CommentOnly (spaces (level * width)) ("// unit: " ++ unit.render) shown
            (linesAt width level plain) (linesAt width level code)) := by
  cases EvaluationRule.of_evaluation h with
  | pending children => cases children
  | shown children => cases children
  | @shownIn _ _ _ assignee unit shown _ children kinds hassignee hunit hshown ok =>
    obtain ⟨⟩ := children
    obtain ⟨plain, hplain, same⟩ := exists_plain_assignment ok
    refine ⟨plain, assignee, unit, shown, ?_, hassignee, hunit, hshown, same, ?_⟩
    · simp [evaluation, Element.children, kinds, hassignee, hshown, hplain, bind, Except.bind]
    · intro cleanTarget cleanUnit cleanResult
      have onUnit := avoids_lineBreaks_render (worded_unitOf hunit) cleanUnit
      have onTarget := avoids_lineBreaks_render (worded_value hassignee) cleanTarget
      refine ⟨onUnit, fun width level => (same width level).2
        ⟨Text.oneLine_of_avoids onUnit, fun f field => ⟨Text.oneLine_of_avoids onTarget, ?_⟩⟩⟩
      exact Text.oneLine_of_avoids
        (avoids_lineBreaks_render (worded_outcome hshown field) cleanResult)

/-- A pressure in kilonewtons per square metre. -/
def pressureUnit : Element :=
  mathElement "unitOverride" "" [mathElement "apply" "" [mathElement "div" "" [],
    mathElement "id" "kN" [], mathElement "apply" ""
      [mathElement "pow" "" [], mathElement "id" "m" [], mathElement "real" "2" []]]]

/-- The result 1.5. -/
def shownNumber : Element :=
  mathElement "result" "" [mathElement "real" "1.5" []]

theorem commentOnly_pressureUnit :
    evaluation (mathElement "eval" "" [mathElement "id" "p" [], pressureUnit, shownNumber]) =
      .ok ([.line "public double p = 1.5; // unit: (kN / (Math.Pow(m, 2)))"],
        [.unitDiscarded "(kN / (Math.Pow(m, 2)))" "p"]) ∧
    (Avoids lineBreaks (mathElement "id" "p" []) ∧ Avoids lineBreaks pressureUnit ∧
      Avoids lineBreaks shownNumber) ∧
    evaluation (mathElement "eval" "" [mathElement "id" "p" [], shownNumber]) =
      .ok ([.line "public double p = 1.5;"], []) ∧
    ∀ width level,
      CommentOnly (spaces (level * width)) "// unit: (kN / (Math.Pow(m, 2)))" (.scalar (.atom "1.5"))
        (linesAt width level [.line "public double p = 1.5;"])
        (linesAt width level
          [.line "public double p = 1.5; // unit: (kN / (Math.Pow(m, 2)))"]) := by
  have code : evaluation (mathElement "eval" ""
      [mathElement "id" "p" [], pressureUnit, shownNumber]) =
      .ok ([.line "public double p = 1.5; // unit: (kN / (Math.Pow(m, 2)))"],
        [.unitDiscarded "(kN / (Math.Pow(m, 2)))" "p"]) := rfl
  have plainCode : evaluation (mathElement "eval" "" [mathElement "id" "p" [], shownNumber]) =
      .ok ([.line "public double p = 1.5;"], []) := rfl
  have clean : Avoids lineBreaks (mathElement "id" "p" []) ∧ Avoids lineBreaks pressureUnit ∧
      Avoids lineBreaks shownNumber :=
    ⟨List.all_eq_true.1 (by decide), List.all_eq_true.1 (by decide),
      List.all_eq_true.1 (by decide)⟩
  obtain ⟨plain, assignee, unit, shown, hplain, -, hunit, hshown, -, only⟩ :=
    commentOnly_of_evaluation code
  obtain ⟨rfl, -⟩ := Prod.mk.inj (Except.ok.inj (hplain.symm.trans plainCode))
  obtain rfl : .scalar (.atom "1.5") = shown := Except.ok.inj hshown
  have text : unit.render = "(kN / (Math.Pow(m, 2)))" :=
    congrArg Fragment.render (Except.ok.inj hunit).symm
  rw [text] at only
  exact ⟨code, clean, plainCode, (only clean.1 clean.2.1 clean.2.2).2⟩

/-- A unit with a newline in it. What follows the newline is code. -/
theorem unit_escapes_comment :
    evaluation (mathElement "eval" "" [mathElement "id" "x" [],
        mathElement "unitOverride" "" [mathElement "id" "k\nN" []],
        mathElement "result" "" [mathElement "real" "1" []]]) =
      .ok ([.line "public double x = 1; // unit: k\nN"], [.unitDiscarded "k\nN" "x"]) ∧
    linesAt 4 0 [.line "public double x = 1; // unit: k\nN"] =
      ["public double x = 1; // unit: k", "N"] ∧
    ∀ shown plain, ¬ CommentOnly "" "// unit: k\nN" shown plain
      (linesAt 4 0 [.line "public double x = 1; // unit: k\nN"]) := by
  have split : linesAt 4 0 [.line "public double x = 1; // unit: k\nN"] =
      ["public double x = 1; // unit: k", "N"] := by decide +kernel
  refine ⟨rfl, split, fun shown plain h => ?_⟩
  generalize hcode : linesAt 4 0 [.line "public double x = 1; // unit: k\nN"] = code at h
  rw [split] at hcode
  cases h with
  | behind => simp at hcode
  | before =>
    have first := (List.cons.inj hcode).1
    revert first
    decide

end Code

end Calcsheet
