import QueryPlan.Model
import QueryPlan.Ty

/-!
# Errors

An error names its cause. One that arises in a clause of a query is tagged with the clause's
position and keyword, once: a tagged error keeps its tag.
-/

namespace QueryPlan

inductive Error
  | unknownEntity (what : String)
  | unboundVariable (name : String)
  | unsupportedOperation (what : String)
  | unsupportedInput (what : String)
  | unsupportedProcedure (name : String)
  | emptyOperation (what : String)
  | typeMismatch (expected found : String)
  | modelMismatch (parent child : Model)
  | invalidPlan (what : String)
  | clause (index : Nat) (keyword : String) (cause : Error)
  | internal (what : String)
deriving DecidableEq, Repr

namespace Error

def message : Error → String
  | unknownEntity what => "unknown entity: " ++ what
  | unboundVariable name => "unbound variable: " ++ name
  | unsupportedOperation what => "unsupported operation: " ++ what
  | unsupportedInput what => "unsupported input: " ++ what
  | unsupportedProcedure name => "unsupported procedure: " ++ name
  | emptyOperation what => "empty operation: " ++ what
  | typeMismatch expected found => "type mismatch: expected " ++ expected ++ ", found " ++ found
  | modelMismatch parent child =>
    "model mismatch: node is " ++ parent.text ++ " but child is " ++ child.text
  | invalidPlan what => "invalid plan: " ++ what
  | clause index keyword cause => s!"clause {index} ({keyword}): " ++ cause.message
  | internal what => "internal error: " ++ what

/-- Tags an error with the clause it arose in, unless it has a tag already. -/
def atClause (index : Nat) (keyword : String) : Error → Error
  | clause i k cause => clause i k cause
  | e => clause index keyword e

/-- The cause under all tags. -/
def root : Error → Error
  | clause _ _ cause => cause.root
  | e => e

/-- The position of the clause that the outermost tag names. -/
def clauseIndex? : Error → Option Nat
  | clause index _ _ => some index
  | _ => none

/-- An error and its causes, outermost first. -/
def chain : Error → List Error
  | clause index keyword cause => clause index keyword cause :: cause.chain
  | e => [e]

/-- A value of type `found` where something else is expected. -/
def mismatch (expected : String) (found : Ty) : Error := typeMismatch expected found.text

end Error

/-- Fails with `e` unless the condition holds. -/
def require (ok : Bool) (e : Error) : Except Error Unit :=
  if ok then .ok () else .error e

end QueryPlan
