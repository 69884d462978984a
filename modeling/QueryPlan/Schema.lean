import QueryPlan.Ty

/-!
# Schemas

A schema is the ordered list of fields that a plan produces. Names may repeat; a name refers to the
last field that has it.
-/

namespace QueryPlan

structure Field where
  name : String
  ty : Ty
deriving DecidableEq, Repr

def Field.text (f : Field) : String := f.name ++ ": " ++ f.ty.text

abbrev Schema := List Field

namespace Schema

/-- The only field of a schema. -/
def single (name : String) (ty : Ty) : Schema := [⟨name, ty⟩]

def text (s : Schema) : String := "[" ++ ", ".intercalate (s.map Field.text) ++ "]"

def names (s : Schema) : List String := s.map Field.name

/-- The position of the last field with a name. -/
def indexOf? : Schema → String → Option Nat
  | [], _ => none
  | f :: fs, name =>
    match indexOf? fs name with
    | some i => some (i + 1)
    | none => if f.name = name then some 0 else none

/-- The last field with a name, and its position. -/
def find? : Schema → String → Option (Nat × Field)
  | [], _ => none
  | f :: fs, name =>
    match find? fs name with
    | some (i, g) => some (i + 1, g)
    | none => if f.name = name then some (0, f) else none

/-- Whether the schema is one field of the given type. -/
def isSingle (s : Schema) (ty : Ty) : Bool :=
  match s with
  | [f] => f.ty = ty
  | _ => false

end Schema

/-- The names that occur more than once, in the order in which they first repeat. -/
def duplicateNames (names : List String) : List String :=
  (names.foldl (fun (seen, twice) name =>
    if seen.contains name then (seen, if twice.contains name then twice else twice ++ [name])
    else (seen ++ [name], twice)) (([] : List String), ([] : List String))).2

end QueryPlan
