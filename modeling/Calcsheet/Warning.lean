/-!
# Warnings

What a reader or the code generator has to tell without giving up. A warning carries what it is
about as data, so that callers can sort warnings out, and the sentence that is shown.
-/

namespace Calcsheet

/-- How much a warning matters. -/
inductive Severity where
  | info | minor | major | error
  deriving DecidableEq, Repr, Inhabited

namespace Severity

/-- The place of the severity in increasing order. -/
def rank : Severity → Nat
  | info => 0
  | minor => 1
  | major => 2
  | error => 3

/-- The greater of two severities. -/
def max (a b : Severity) : Severity :=
  if a.rank < b.rank then b else a

/-- The result cannot be trusted. -/
def isError : Severity → Bool
  | major | error => true
  | info | minor => false

end Severity

/-- What a warning is about. -/
inductive Cause where
  /-- There is no rule for elements of this name. -/
  | unimplemented (name : String)
  /-- A result was shown in this unit, which the code does not know. -/
  | unitDiscarded (unit : String)
  /-- A namespace prefix was used and never declared. -/
  | unboundPrefix (label : String)
  /-- A reference to an entity that is not predefined. -/
  | unknownEntity (name : String)
  deriving DecidableEq, Repr, Inhabited

/-- Something to tell about a conversion that went on. -/
structure Warning where
  severity : Severity
  cause : Cause
  message : String
  deriving DecidableEq, Repr, Inhabited

namespace Warning

/-- No rule for elements named `name`. -/
def unimplemented (name : String) : Warning :=
  { severity := .minor, cause := .unimplemented name, message := "not yet implemented: " ++ name }

/-- The unit in which `target` is shown stays in a comment. -/
def unitDiscarded (unit target : String) : Warning :=
  { severity := .info, cause := .unitDiscarded unit,
    message := "unit " ++ unit ++ " on " ++ target ++ " kept only as a comment" }

/-- The element `label:localName` uses a prefix that no one declared. -/
def unboundPrefix (label localName : String) : Warning :=
  { severity := .minor, cause := .unboundPrefix label,
    message := "element <" ++ label ++ ":" ++ localName ++ "> uses an undeclared prefix" }

/-- The reference `&name;` stays in the text as it is. -/
def unknownEntity (name : String) : Warning :=
  { severity := .minor, cause := .unknownEntity name,
    message := "unknown entity reference &" ++ name ++ "; kept verbatim" }

/-- The name that has no rule, if that is what the warning is about. -/
def unimplementedName? (w : Warning) : Option String :=
  match w.cause with
  | .unimplemented name => some name
  | _ => none

end Warning

/-- A result and the warnings met on the way to it. -/
structure Converted (α : Type) where
  value : α
  warnings : List Warning := []
  deriving Repr, Inhabited

namespace Converted

variable {α : Type}

/-- The result with one more warning. -/
def warn (r : Converted α) (w : Warning) : Converted α :=
  { r with warnings := r.warnings ++ [w] }

/-- There is something to tell. -/
def hasWarnings (r : Converted α) : Bool :=
  !r.warnings.isEmpty

/-- Some warning means that the result cannot be trusted. -/
def hasErrors (r : Converted α) : Bool :=
  r.warnings.any fun w => w.severity.isError

/-- The names without a rule, in the order in which they were told. -/
def unimplemented (r : Converted α) : List String :=
  r.warnings.filterMap Warning.unimplementedName?

/-- The greatest severity told. -/
def worst? (r : Converted α) : Option Severity :=
  match r.warnings with
  | [] => none
  | w :: rest => some (rest.foldl (fun worst w => worst.max w.severity) w.severity)

end Converted

end Calcsheet
