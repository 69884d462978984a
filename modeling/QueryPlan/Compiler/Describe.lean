import QueryPlan.Catalog.Describe
import QueryPlan.Compiler

/-! # Descriptions of compilers and interners -/

namespace QueryPlan

def InternerStats.describe (s : InternerStats) : String :=
  describeRecord "CacheStats" [("hits", toString s.hits), ("misses", toString s.misses),
    ("entries", toString s.entries)]

def Interner.describe (i : Interner) : String :=
  describeRecord "PlanCache" [("capacity", toString i.capacity), ("stats", i.stats.describe)]

def Settings.describe (s : Settings) : String :=
  describeRecord "Config" [("namespace", s.home.describe), ("target_model", s.targetModel.describe),
    ("allow_substitution", toString s.allowSubstitution),
    ("plan_cache_capacity", toString s.cacheCapacity), ("validate", toString s.validate)]

/-- The catalog is left out. -/
def Compiler.describe (c : Compiler) : String :=
  "QueryCompiler \x7b config: " ++ c.settings.describe ++ ", cache: " ++ c.interner.describe ++
    ", .. \x7d"

end QueryPlan
