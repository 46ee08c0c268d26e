import Calcsheet.Attributes
import Calcsheet.Xml.Cut
import Calcsheet.Xml.Reference

/-!
# Tags and their attributes

A tag has a name and a text in which its attributes are written. That text is read leniently: a
faulty attribute is skipped and reading goes on behind it, so the attributes come as a list of
attempts in which a fault is `none`.
-/

namespace Calcsheet.Xml

/-- An opening tag. -/
structure Tag where
  /-- Everything up to the first white space. -/
  name : List Char
  /-- What follows the name. -/
  body : List Char
  deriving DecidableEq, Repr, Inhabited

/-- An attribute as it is written: its whole key and its value with references unresolved. -/
structure RawAttribute where
  key : List Char
  value : List Char
  deriving DecidableEq, Repr, Inhabited

/-- One attempt at an attribute: the key, if an equals sign follows it, what was read (`none` for a
fault), and the text to go on with. -/
structure Attempt where
  key? : Option (List Char)
  attribute? : Option RawAttribute
  rest : List Char
  deriving DecidableEq, Repr, Inhabited

/-- Reads a value, which is quoted, after `key` and its equals sign. An unquoted one is skipped. -/
def attemptValue (key s : List Char) : Attempt :=
  match skipSpace s with
  | [] => ⟨some key, none, []⟩
  | quote :: s =>
    if isQuote quote then
      match cutAt? [quote] s with
      | some (value, rest) => ⟨some key, some ⟨key, value⟩, rest⟩
      | none => ⟨some key, none, []⟩
    else ⟨some key, none, (quote :: s).dropWhile fun c => !isSpace c⟩

/-- Reads what follows a key: an equals sign and a value. After a key of `seen` all is skipped up to
white space, quoted or not. -/
def attemptAfterKey (seen : List (List Char)) (key s : List Char) : Attempt :=
  match skipSpace s with
  | '=' :: rest =>
    if seen.contains key then ⟨some key, none, rest.dropWhile fun c => !isSpace c⟩
    else attemptValue key rest
  | rest => ⟨none, none, rest⟩

/-- The next attempt at an attribute. The first character of a key belongs to it whatever it is. -/
def attempt? (seen : List (List Char)) (s : List Char) : Option Attempt :=
  match skipSpace s with
  | [] => none
  | c :: s =>
    let inKey : Char → Bool := fun c => c != '=' && !isSpace c
    some (attemptAfterKey seen (c :: s.takeWhile inKey) (s.dropWhile inKey))

theorem length_rest_attemptValue (key s : List Char) :
    (attemptValue key s).rest.length ≤ s.length := by
  have hskip := length_dropWhile_le isSpace s
  unfold attemptValue skipSpace
  split
  · simp
  · next quote s' hs =>
    rw [hs, List.length_cons] at hskip
    split
    · split
      · next hcut =>
        have hs' := congrArg List.length (cutAt?_eq_some hcut)
        simp only [List.length_append, List.length_singleton] at hs'
        simp only
        omega
      · simp
    · have := length_dropWhile_le (fun c => !isSpace c) (quote :: s')
      simp only [List.length_cons] at this ⊢
      omega

theorem length_rest_attemptAfterKey (seen : List (List Char)) (key s : List Char) :
    (attemptAfterKey seen key s).rest.length ≤ s.length := by
  have hskip := length_dropWhile_le isSpace s
  unfold attemptAfterKey skipSpace
  split
  · next rest hs =>
    rw [hs, List.length_cons] at hskip
    split
    · have := length_dropWhile_le (fun c => !isSpace c) rest
      simp only
      omega
    · have := length_rest_attemptValue key rest
      omega
  · exact hskip

theorem length_rest_attempt? {seen : List (List Char)} {s : List Char} {a : Attempt}
    (h : attempt? seen s = some a) : a.rest.length < s.length := by
  have hskip := length_dropWhile_le isSpace s
  unfold attempt? skipSpace at h
  split at h
  · cases h
  · next c s' hs =>
    rw [hs, List.length_cons] at hskip
    cases h
    have hafter := length_rest_attemptAfterKey seen
      (c :: s'.takeWhile fun c => c != '=' && !isSpace c)
      (s'.dropWhile fun c => c != '=' && !isSpace c)
    have hdrop := length_dropWhile_le (fun c => c != '=' && !isSpace c) s'
    omega

/-- All attempts in a text; `unique` says whether a key may be read only once. The keys in `seen`
have been read already; a key that no equals sign follows does not count as read. -/
def attempts (unique : Bool) (seen : List (List Char)) (s : List Char) :
    List (Option RawAttribute) :=
  match _h : attempt? (if unique then seen else []) s with
  | none => []
  | some a => a.attribute? :: attempts unique (a.key?.toList ++ seen) a.rest
termination_by s.length
decreasing_by exact length_rest_attempt? (by assumption)

/-- The part of a name behind its first colon, or all of it. -/
def localPart (name : List Char) : List Char :=
  match name.dropWhile (· != ':') with
  | [] => name
  | _ :: rest => rest

/-- The part of a name before its first colon. -/
def prefixPart? (name : List Char) : Option (List Char) :=
  if name.contains ':' then some (name.takeWhile (· != ':')) else none

/-- The prefix that an attribute with this key declares: empty for the default namespace. -/
def declaredPrefix? (key : List Char) : Option (List Char) :=
  if key = "xmlns".toList then some [] else dropMark? "xmlns:".toList key

namespace Tag

/-- The attributes of the element: all that are not namespace declarations, under the local part
of their keys. -/
def attributes (tag : Tag) : Attributes :=
  let kept := (attempts true [] tag.body).filterMap id |>.filter fun a =>
    (declaredPrefix? a.key).isNone
  .ofList (kept.map fun a =>
    (String.ofList (localPart a.key), String.ofList (unescape a.value)))

/-- The attributes as they are written, a key as often as it stands there, up to the first fault. -/
def written (tag : Tag) : List RawAttribute :=
  ((attempts false [] tag.body).takeWhile Option.isSome).filterMap id

end Tag

end Calcsheet.Xml
