import QueryPlan.Catalog.Json
import QueryPlan.Compiler

/-! # Settings as JSON -/

namespace QueryPlan.Settings

def toJson (s : Settings) : Json :=
  .obj [("namespace", s.home.toJson), ("target_model", s.targetModel.toJson),
    ("allow_substitution", .bool s.allowSubstitution),
    ("plan_cache_capacity", .ofNat s.cacheCapacity), ("validate", .bool s.validate)]

/-- Settings that are not given are the default ones. -/
def ofJson? (j : Json) : Option Settings := do
  let r ← j.record? ["namespace", "target_model", "allow_substitution", "plan_cache_capacity",
    "validate"]
  return ⟨← r.getD? "namespace" default.home NamespaceId.ofJson?,
    ← r.getD? "target_model" default.targetModel Model.ofJson?,
    ← r.getD? "allow_substitution" default.allowSubstitution Json.bool?,
    ← r.getD? "plan_cache_capacity" default.cacheCapacity Json.nat64?,
    ← r.getD? "validate" default.validate Json.bool?⟩

end QueryPlan.Settings
