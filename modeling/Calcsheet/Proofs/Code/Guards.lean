import Calcsheet.Proofs.Code.Layout
import Calcsheet.Proofs.Code.MemberRules
import Calcsheet.Proofs.Code.Words
import Calcsheet.Proofs.Text.Parentheses

/-!
# Guards stand in parentheses

Where no word has a parenthesis in it, every expression closes the parentheses that it opens, and one
that `isParenthesized` has its first parenthesis closed by its last character
(`Fragment.enclosed_render`). So the condition of a branch stands in one pair of parentheses, be it
its own or the one that the line puts around it, and the lines that begin branches, at any depth of
a program, are those for its conditions (`guards_of_program`).
-/

namespace Calcsheet.Code

open Element (mem_descendants_of_mem_children mem_descendants_trans)
open Text (Level Enclosed parentheses avoids)

theorem level_of_avoids {s : String} (h : avoids parentheses s = true) : Level s :=
  Text.level_of_not_mem (Text.avoids_iff.1 h)

/-! ## Expressions -/

namespace Fragment

/-- An expression that writes its own parentheses has a level text between them. -/
theorem exists_inner {f : Fragment} (own : ∀ word ∈ f.ownText?, Level word)
    (operands : ∀ c ∈ f.operands, Level c.render) (h : f.isParenthesized = true) :
    ∃ inner, f.render = "(" ++ inner ++ ")" ∧ Level inner := by
  cases f with
  | binary operator left right =>
    have blank : Level " " := level_of_avoids rfl
    have hleft := operands left (by simp [Fragment.operands])
    have hright := operands right (by simp [Fragment.operands])
    refine ⟨left.render ++ " " ++ operator ++ " " ++ right.render, ?_,
      (((hleft.append blank).append (own operator rfl)).append blank).append hright⟩
    simp [String.append_assoc]
  | group inner => exact ⟨inner.render, rfl, operands inner (by simp [Fragment.operands])⟩
  | negate operand =>
    have minus : Level "-1.0 * " := level_of_avoids rfl
    have hoperand := operands operand (by simp [Fragment.operands])
    refine ⟨"-1.0 * " ++ ("(" ++ operand.render ++ ")"), ?_,
      minus.append hoperand.enclosed.level⟩
    rw [← String.toList_inj]
    simp
  | conditional condition whenTrue whenFalse =>
    have marks : Level " ? " ∧ Level " : " := ⟨level_of_avoids rfl, level_of_avoids rfl⟩
    have hcondition := operands condition (by simp [Fragment.operands])
    have hTrue := operands whenTrue (by simp [Fragment.operands])
    have hFalse := operands whenFalse (by simp [Fragment.operands])
    refine ⟨condition.render ++ " ? " ++ ("(" ++ whenTrue.render ++ ")") ++ " : " ++
      whenFalse.render, ?_,
      (((hcondition.append marks.1).append hTrue.enclosed.level).append marks.2).append hFalse⟩
    rw [← String.toList_inj]
    simp
  | _ => cases h

theorem level_render {f : Fragment} (plain : f.Avoids parentheses) : Level f.render := by
  induction f using inductionOperands with
  | step f inner =>
    obtain ⟨own, operands⟩ := forall_mem_words_iff.1 plain
    have own : ∀ word ∈ f.ownText?, Level word := fun word h => level_of_avoids (own word h)
    have operands : ∀ c ∈ f.operands, Level c.render := fun c hc => inner c hc (operands c hc)
    have row {fs : List Fragment} (h : ∀ c ∈ fs, Level c.render) : Level (renderList fs) := by
      rw [renderList_eq]
      exact Text.level_joinWith (level_of_avoids rfl) (List.forall_mem_map.2 h)
    by_cases closed : f.isParenthesized = true
    · obtain ⟨text, hrender, level⟩ := exists_inner own operands closed
      rw [hrender]
      exact level.enclosed.level
    · cases f with
      | empty => exact Text.level_empty
      | atom text => exact own text rfl
      | call function arguments =>
        have text : (call function arguments).render =
            function ++ ("(" ++ renderList arguments ++ ")") := by
          simp [String.append_assoc]
        rw [text]
        exact (own function rfl).append (row operands).enclosed.level
      | index target position =>
        have htarget := operands target (by simp [Fragment.operands])
        have hposition := operands position (by simp [Fragment.operands])
        exact ((htarget.append (level_of_avoids rfl)).append hposition).append (level_of_avoids rfl)
      | complex re im =>
        have hre := operands re (by simp [Fragment.operands])
        have him := operands im (by simp [Fragment.operands])
        have parts := ((hre.append (level_of_avoids (s := ", ") rfl)).append him).enclosed.level
        have text : (complex re im).render =
            "new Complex" ++ ("(" ++ (re.render ++ ", " ++ im.render) ++ ")") := by
          rw [← String.toList_inj]
          simp
        rw [text]
        exact (level_of_avoids rfl).append parts
      | list items => exact row operands
      | _ => exact absurd rfl closed

theorem enclosed_render {f : Fragment} (plain : f.Avoids parentheses)
    (h : f.isParenthesized = true) : Enclosed f.render := by
  obtain ⟨own, operands⟩ := forall_mem_words_iff.1 plain
  obtain ⟨inner, hrender, level⟩ := exists_inner (fun word h => level_of_avoids (own word h))
    (fun c hc => level_render (operands c hc)) h
  rw [hrender]
  exact level.enclosed

end Fragment

/-! ## Lines that begin branches -/

/-- The line is `if` with the condition behind it, in one pair of parentheses. -/
def IsGuardOf (condition : Element) (line : String) : Prop :=
  ∃ guard text, value condition = .ok guard ∧ line = "if " ++ text ∧
    (text = guard.render ∨ text = "(" ++ guard.render ++ ")") ∧ Enclosed text

/-- The line begins a branch. -/
def isGuard (line : String) : Bool :=
  line.toList.take 3 = ['i', 'f', ' ']

/-- The lines of some code that begin branches. -/
def guardsAt (level : Nat) (ps : List Piece) : List String :=
  ((Piece.recordsAll level ps).map Prod.snd).filter isGuard

mutual

/-- The conditions of a statement: that of the branch, and those of the branches inside it. -/
def conditions : Element → List Element
  | .mk name _ _ children =>
    match Kind.of name, children with
    | .ifThen, [condition, .mk bodyName _ _ statements] =>
      condition :: if Kind.of bodyName = .program then conditionsOf statements else []
    | _, _ => []

/-- The conditions of statements in a row. -/
def conditionsOf : List Element → List Element
  | [] => []
  | e :: rest => conditions e ++ conditionsOf rest

end

section Conditions

variable {e condition body : Element}

theorem conditions_of_branch (kind : e.kind = .ifThen) (children : e.children = [condition, body]) :
    conditions e =
      condition :: if body.kind = .program then conditionsOf body.children else [] := by
  cases e with
  | mk name attributes text es =>
    cases body with
    | mk bodyName _ _ statements =>
      obtain rfl : es = [condition, .mk bodyName _ _ statements] := children
      have kind : Kind.of name = .ifThen := kind
      rw [conditions.eq_def]
      dsimp only
      rw [kind]
      rfl

theorem conditions_of_apply (kind : e.kind = .apply) : conditions e = [] := by
  cases e with
  | mk name attributes text es =>
    have kind : Kind.of name = .apply := kind
    rw [conditions.eq_def]
    dsimp only
    rw [kind]

end Conditions

theorem guardsAt_append (level : Nat) (ps qs : List Piece) :
    guardsAt level (ps ++ qs) = guardsAt level ps ++ guardsAt level qs := by
  simp [guardsAt, Piece.recordsAll_append]

theorem guardsAt_line (level : Nat) (text : String) :
    guardsAt level [.line text] = [text].filter isGuard :=
  rfl

theorem guardsAt_braces (level : Nat) (body : List Piece) :
    guardsAt level [.braces body] = guardsAt (level + 1) body := by
  have opening : isGuard "\x7b" = false := rfl
  have closing : isGuard "\x7d" = false := rfl
  simp [guardsAt, Piece.braces, Piece.recordsAll, Piece.records, opening, closing]

/-- The line that begins a branch has the condition in one pair of parentheses. -/
theorem exists_guardLine_eq {condition : Element} {guard : Fragment}
    (plain : guard.Avoids parentheses) (h : value condition = .ok guard) :
    ∃ line, guardLine guard = .line line ∧ IsGuardOf condition line := by
  unfold guardLine
  split
  · next closed =>
    exact ⟨_, rfl, guard, guard.render, h, rfl, .inl rfl, Fragment.enclosed_render plain closed⟩
  · have line : "if (" ++ guard.render ++ ")" = "if " ++ ("(" ++ guard.render ++ ")") := by
      rw [← String.toList_inj]
      simp
    exact ⟨_, rfl, guard, "(" ++ guard.render ++ ")", h, line, .inr rfl,
      (Fragment.level_render plain).enclosed⟩

theorem IsGuardOf.isGuard {condition : Element} {line : String} (h : IsGuardOf condition line) :
    isGuard line = true := by
  obtain ⟨guard, text, -, rfl, -, -⟩ := h
  simp [Code.isGuard]

/-- An applied expression is empty, in parentheses or a complex number. -/
theorem shape_of_apply {e : Element} {f : Fragment} (kind : e.kind = .apply) (h : value e = .ok f) :
    f = .empty ∨ f.isParenthesized = true ∨ f.isComplex = true := by
  cases value_eq_ok_iff.1 h with
  | real other | id other | imag other | parens other | sequence other => simp [kind] at other
  | nothing => exact .inl rfl
  | sum =>
    unfold sumOf
    split
    · split
      · exact .inr (.inr rfl)
      · exact .inr (.inr rfl)
      · exact .inr (.inl rfl)
    · exact .inr (.inl rfl)
  | _ => exact .inr (.inl rfl)

theorem isGuard_of_apply {e : Element} {f : Fragment} (kind : e.kind = .apply)
    (h : value e = .ok f) : isGuard (f.render ++ ";") = false := by
  rcases shape_of_apply kind h with rfl | closed | complex
  · rfl
  · cases f with
    | binary | group | negate | conditional => simp [isGuard]
    | _ => cases closed
  · cases f with
    | complex => simp [isGuard]
    | _ => cases complex

/-! ## Programs -/

/-- The lines that begin branches are those for the conditions. -/
def Guarded (es : List Element) (ps : List Piece) : Prop :=
  ∀ level, List.Forall₂ IsGuardOf (conditionsOf es) (guardsAt level ps)

theorem guarded_nil : Guarded [] [] :=
  fun _ => .nil

theorem Guarded.cons {e : Element} {es : List Element} {ps qs : List Piece} (first : Guarded [e] ps)
    (others : Guarded es qs) : Guarded (e :: es) (ps ++ qs) := by
  intro level
  have here := first level
  rw [conditionsOf, conditionsOf, List.append_nil] at here
  rw [conditionsOf, guardsAt_append]
  exact List.rel_append here (others level)

/-- A branch has a line for its condition, and those of its body. -/
theorem guarded_branch {e condition body : Element} {guard : Fragment} {inner : List Piece}
    (kind : e.kind = .ifThen) (children : e.children = [condition, body])
    (plain : guard.Avoids parentheses) (ok : value condition = .ok guard)
    (h : Guarded (if body.kind = .program then body.children else []) inner) :
    Guarded [e] [guardLine guard, .braces inner] := by
  intro level
  obtain ⟨line, hline, first⟩ := exists_guardLine_eq plain ok
  have lines : guardsAt level [guardLine guard, .braces inner] =
      line :: guardsAt (level + 1) inner := by
    rw [← List.singleton_append, guardsAt_append, guardsAt_braces, hline, guardsAt_line,
      List.filter_cons_of_pos first.isGuard, List.filter_nil, List.singleton_append]
  have needed : conditionsOf [e] =
      condition :: conditionsOf (if body.kind = .program then body.children else []) := by
    rw [conditionsOf, conditionsOf, List.append_nil, conditions_of_branch kind children]
    split <;> simp [conditionsOf]
  rw [lines, needed]
  exact .cons first (h (level + 1))

/-- Statements below an element whose words avoid parentheses are guarded. The induction is on the
element: a branch has its body further down. -/
theorem guarded_statement {e : Element} {ps : List Piece} (clean : Avoids parentheses e)
    (h : statement e = .ok ps) : Guarded [e] ps := by
  have own : ∀ word ∈ ownWords, avoids parentheses word = true :=
    List.all_eq_true.1 (by decide)
  induction e using Element.inductionBelow generalizing ps with
  | step e below =>
    cases StatementRule.of_statement h with
    | @branch condition body guard inner kind children _ choice guarded ok =>
      have plain := (worded_value guarded).avoids own (clean.child (by simp [children]))
      refine guarded_branch kind children plain guarded ?_
      rw [if_pos choice]
      refine statements_pairing guarded_nil .cons (fun d hd code hcode => ?_) ok
      have hbody : body ∈ e.children := by simp [children]
      exact below d (mem_descendants_trans (mem_descendants_of_mem_children hd)
        (mem_descendants_of_mem_children hbody)) ((clean.child hbody).child hd) hcode
    | @answer condition body guard f kind children _ choice guarded ok =>
      have plain := (worded_value guarded).avoids own (clean.child (by simp [children]))
      refine guarded_branch kind children plain guarded ?_
      rw [if_neg (by simp [choice])]
      intro level
      have line : isGuard ("return " ++ f.render ++ ";") = false := by simp [isGuard]
      simp [conditionsOf, returnLine, guardsAt_line, line]
    | expression kind ok =>
      intro level
      simp [conditionsOf, conditions_of_apply kind, guardsAt_line, isGuard_of_apply kind ok]

/-- An expression that `isParenthesized` has its first parenthesis closed by its last character, if
no word in it has a parenthesis. So in a program whose texts have none, each condition, at any
depth, is written in one pair of parentheses. -/
theorem guards_of_program :
    (∀ f : Fragment, f.Avoids parentheses → f.isParenthesized = true → Enclosed f.render) ∧
    ∀ (e : Element) (code : List Piece), Avoids parentheses e → program e = .ok code →
      ∀ level, List.Forall₂ IsGuardOf (conditionsOf e.children) (guardsAt level code) := by
  refine ⟨fun f plain closed => Fragment.enclosed_render plain closed, fun e code clean h => ?_⟩
  rw [program_eq] at h
  exact statements_pairing guarded_nil .cons
    (fun d hd _ ok => guarded_statement (clean.child hd) ok) h

/-- A branch in a branch. The second condition is a complex number, which is not in parentheses of
its own. -/
def nestedBranches : Element :=
  mathElement "program" "" [mathElement "ifThen" ""
    [mathElement "apply" ""
      [mathElement "lessThan" "" [], mathElement "id" "x" [], mathElement "real" "1" []],
     mathElement "program" "" [mathElement "ifThen" ""
      [mathElement "apply" "" [mathElement "plus" "" [],
        mathElement "apply" "" [mathElement "sqrt" "" [], mathElement "id" "x" []],
        mathElement "apply" ""
          [mathElement "mult" "" [], mathElement "real" "3" [], mathElement "imag" "2" []]],
       mathElement "real" "0" []]]]]

/-- The code of `nestedBranches`. -/
def nestedBranchesCode : List Piece :=
  [.line "if (x < 1)", .braces
    [.line "if (new Complex((Math.Sqrt(x)), (3 * 2i)))", .braces [.line "return 0;"]]]

theorem guards_nestedBranches :
    Fragment.Avoids parentheses (.binary "<" (.atom "x") (.atom "1")) ∧ Enclosed "(x < 1)" ∧
    Avoids parentheses nestedBranches ∧ program nestedBranches = .ok nestedBranchesCode ∧
    List.Forall₂ IsGuardOf (conditionsOf nestedBranches.children)
      ["if (x < 1)", "if (new Complex((Math.Sqrt(x)), (3 * 2i)))"] := by
  have test : Fragment.Avoids parentheses (.binary "<" (.atom "x") (.atom "1")) := by decide
  have clean : Avoids parentheses nestedBranches := List.all_eq_true.1 (by decide)
  have code : program nestedBranches = .ok nestedBranchesCode := rfl
  have guards : guardsAt 0 nestedBranchesCode =
      ["if (x < 1)", "if (new Complex((Math.Sqrt(x)), (3 * 2i)))"] := rfl
  refine ⟨test, guards_of_program.1 _ test rfl, clean, code, ?_⟩
  rw [← guards]
  exact guards_of_program.2 _ _ clean code 0

end Calcsheet.Code
