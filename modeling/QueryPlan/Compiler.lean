import QueryPlan.Interner
import QueryPlan.Lowering.Query
import QueryPlan.Plan.Rebuild

/-!
# The compiler

A compiler turns queries into plans over one catalog. A plan is delivered in the model asked for,
checked if that is asked for, and interned, so that equal queries give one and the same plan. Every
plan that is delivered has a tag.
-/

namespace QueryPlan

structure Settings where
  /-- The namespace that queries are about. -/
  home : NamespaceId
  /-- The model that plans are delivered in. -/
  targetModel : Model
  /-- Whether a namespace without a graph may be read through one made up from its entities. -/
  allowSubstitution : Bool
  /-- How many plans are kept; none if zero. -/
  cacheCapacity : Nat
  /-- Whether finished plans are checked. -/
  validate : Bool
deriving DecidableEq, Repr

namespace Settings

def default : Settings := ⟨⟨0⟩, .graph, true, 256, true⟩

def withHome (s : Settings) (home : NamespaceId) : Settings := { s with home }

def withTargetModel (s : Settings) (model : Model) : Settings := { s with targetModel := model }

def withoutSubstitution (s : Settings) : Settings := { s with allowSubstitution := false }

def withCacheCapacity (s : Settings) (capacity : Nat) : Settings :=
  { s with cacheCapacity := capacity }

def withValidation (s : Settings) (validate : Bool) : Settings := { s with validate }

end Settings

structure Compiled where
  root : Plan
  kind : QueryKind

structure Compiler where
  catalog : Catalog
  settings : Settings
  interner : Interner
  /-- The next tag to give out. -/
  nextTag : Nat

namespace Compiler

def new (catalog : Catalog) (settings : Settings) : Compiler :=
  ⟨catalog, settings, .empty settings.cacheCapacity, 0⟩

/-- The plan in the model asked for, checked if that is asked for. -/
def deliver (s : Settings) (root : Plan) (kind : QueryKind) : Except Error Plan := do
  let root ← root.toModel s.targetModel kind
  if s.validate then root.validate
  return root

/-- Delivers a plan and interns it. -/
def finish (c : Compiler) (root : Plan) (kind : QueryKind) : Except Error Compiled × Compiler :=
  match deliver c.settings root kind with
  | .error e => (.error e, c)
  | .ok root =>
    let (root, interner) := c.interner.intern (root.tagWith c.nextTag)
    (.ok ⟨root, kind⟩, { c with interner, nextTag := c.nextTag + 1 })

/-- Compiles a query. -/
def compile (c : Compiler) (query : Query) : Except Error Compiled × Compiler :=
  match query.toPlan c.catalog c.settings.home c.settings.allowSubstitution with
  | .error e => (.error e, c)
  | .ok (root, kind) => c.finish root kind

/-- Forgets all interned plans. -/
def clear (c : Compiler) : Compiler := { c with interner := c.interner.clear }

end Compiler

end QueryPlan
