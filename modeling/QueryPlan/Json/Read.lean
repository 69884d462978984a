import QueryPlan.Json.Basic

/-!
# Reading data from JSON

A record is an object whose members go by the names of its fields, or a list of the fields in order.
Members that are no field are passed over; a field that is given twice is refused. A variant is an
object with one member, whose key is the variant's name; a variant without content may be written as
its name alone. The fields of a variant may be listed in order only in a file.
-/

namespace QueryPlan.Json

variable {α β : Type}

def bool? : Json → Option Bool
  | bool b => some b
  | _ => none

def text? : Json → Option String
  | str s => some s
  | _ => none

/-- A number from zero up to the bound. -/
def natBelow? (bound : Nat) : Json → Option Nat
  | int i => if 0 ≤ i && i < bound then some i.toNat else none
  | _ => none

/-- A number of 32 bits. -/
def nat32? : Json → Option Nat := natBelow? UInt32.size

/-- A number of 64 bits. -/
def nat64? : Json → Option Nat := natBelow? UInt64.size

/-- A number of 64 bits, one of them for the sign. -/
def int64? : Json → Option Int64
  | int i =>
    if Int64.minValue.toInt ≤ i && i ≤ Int64.maxValue.toInt then some (Int64.ofInt i) else none
  | _ => none

/-- Any number, rounded to a double. -/
def real? : Json → Option Binary64
  | int i => some (.ofInt i)
  | real x => some x
  | _ => none

/-- Null for nothing. -/
def orNull? (f : Json → Option α) : Json → Option (Option α)
  | null => some none
  | j => (f j).map some

/-- A list of things of one kind. -/
def each? (f : Json → Option α) : Json → Option (List α)
  | arr items => items.mapM f
  | _ => none

/-- A list of two things. -/
def pair? (f : Json → Option α) (g : Json → Option β) : Json → Option (α × β)
  | arr [a, b] => do return (← f a, ← g b)
  | _ => none

/-- Things of one kind by key. -/
def dictionary? (f : Json → Option α) : Json → Option (List (String × α))
  | obj members => members.mapM fun (key, j) => (f j).map (key, ·)
  | _ => none

/-- The name of a variant and its content, null if it is written without. -/
def variant? : Json → Option (String × Json)
  | str name => some (name, null)
  | obj [(name, content)] => some (name, content)
  | _ => none

/-- The content of a variant that has none. -/
def nothing? (a : α) : Json → Option α
  | null => some a
  | _ => none

/-- One of some variants without content, told by their names. -/
def oneOf? (nameOf : α → String) (all : List α) (j : Json) : Option α := do
  let (name, content) ← j.variant?
  nothing? () content
  all.find? (nameOf · = name)

/-- The fields of a record that are given. -/
structure Record where
  fields : List (String × Json)
  /-- Whether the fields are given in order instead of by name. -/
  ordered : Bool

/-- The record with fields of these names. -/
def record? (names : List String) : Json → Option Record
  | arr items => if items.length ≤ names.length then some ⟨names.zip items, true⟩ else none
  | obj members =>
    let fields := members.filter fun (key, _) => names.contains key
    if (fields.map Prod.fst).Nodup then some ⟨fields, false⟩ else none
  | _ => none

/-- Where JSON comes from. -/
inductive Source
  /-- A file, read as it goes. -/
  | file
  /-- A message, which is taken apart before it is read. -/
  | message
deriving DecidableEq, Repr

/-- The record of a variant with fields of these names. -/
def variantRecord? (source : Source) (names : List String) (content : Json) : Option Record :=
  match source, content with
  | .message, arr _ => none
  | _, content => content.record? names

namespace Record

def find? (r : Record) (name : String) : Option Json :=
  (r.fields.find? (·.1 = name)).map Prod.snd

/-- A field that must be given. -/
def get? (r : Record) (name : String) (f : Json → Option α) : Option α :=
  (r.find? name).bind f

/-- A field with a value of its own if it is not given. -/
def getD? (r : Record) (name : String) (absent : α) (f : Json → Option α) : Option α :=
  match r.find? name with
  | some j => f j
  | none => some absent

/-- A field that may be missing or null. -/
def opt? (r : Record) (name : String) (f : Json → Option α) : Option (Option α) :=
  r.getD? name none (orNull? f)

/-- A field that may be null, and missing if the fields go by name. -/
def nullable? (r : Record) (name : String) (f : Json → Option α) : Option (Option α) :=
  if r.ordered then r.get? name (orNull? f) else r.opt? name f

/-- A list, empty if it is missing. -/
def list? (r : Record) (name : String) (f : Json → Option α) : Option (List α) :=
  r.getD? name [] (each? f)

/-- A mark, not set if it is missing. -/
def flag? (r : Record) (name : String) : Option Bool := r.getD? name false bool?

end Record

end QueryPlan.Json
