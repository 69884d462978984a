import Mathlib.Data.List.Nodup
import QueryPlan.Schema

/-!
# Names in schemas

A name may stand for several fields of a schema, and then it means the last of them.
`Schema.IsLast` says which field that is without a search, and the searches find that field and no
other. Where no name comes twice, a name has one position, which `duplicateNames` checks.
-/

namespace QueryPlan

namespace Schema

variable {s : Schema} {name : String} {i : Nat} {f g : Field}

/-- The field stands at the position and has the name, which no field after it has. -/
structure IsLast (s : Schema) (name : String) (i : Nat) (f : Field) : Prop where
  field : s[i]? = some f
  named : f.name = name
  last : ∀ j g, i < j → s[j]? = some g → g.name ≠ name

theorem mem_names : name ∈ s.names ↔ ∃ f ∈ s, f.name = name := List.mem_map

theorem IsLast.mem_names (h : s.IsLast name i f) : name ∈ s.names :=
  Schema.mem_names.mpr ⟨f, List.mem_of_getElem? h.field, h.named⟩

theorem IsLast.getElem?_names (h : s.IsLast name i f) : s.names[i]? = some name := by
  rw [names, List.getElem?_map, h.field, Option.map_some, h.named]

/-- A field in front moves the others by one place. -/
theorem isLast_cons_succ : IsLast (g :: s) name (i + 1) f ↔ s.IsLast name i f := by
  constructor
  · rintro ⟨hfield, hnamed, hlast⟩
    refine ⟨by rwa [List.getElem?_cons_succ] at hfield, hnamed, fun j other hj hother => ?_⟩
    exact hlast (j + 1) other (by omega) (by rwa [List.getElem?_cons_succ])
  · rintro ⟨hfield, hnamed, hlast⟩
    refine ⟨by rwa [List.getElem?_cons_succ], hnamed, fun j other hj hother => ?_⟩
    obtain ⟨k, rfl⟩ : ∃ k, j = k + 1 := ⟨j - 1, by omega⟩
    rw [List.getElem?_cons_succ] at hother
    exact hlast k other (by omega) hother

/-- The first field is the last of its name if no other field has the name. -/
theorem isLast_cons_zero :
    IsLast (g :: s) name 0 f ↔ g = f ∧ g.name = name ∧ name ∉ s.names := by
  constructor
  · rintro ⟨hfield, hnamed, hlast⟩
    obtain rfl : g = f := Option.some.inj hfield
    refine ⟨rfl, hnamed, fun hmem => ?_⟩
    obtain ⟨other, hother, hname⟩ := mem_names.mp hmem
    obtain ⟨j, hj⟩ := List.mem_iff_getElem?.mp hother
    exact hlast (j + 1) other (Nat.succ_pos j) (by rwa [List.getElem?_cons_succ]) hname
  · rintro ⟨rfl, hnamed, hnone⟩
    refine ⟨rfl, hnamed, fun j other hj hother hname => hnone ?_⟩
    obtain ⟨k, rfl⟩ : ∃ k, j = k + 1 := ⟨j - 1, by omega⟩
    rw [List.getElem?_cons_succ] at hother
    exact mem_names.mpr ⟨other, List.mem_of_getElem? hother, hname⟩

/-! ## Searches -/

theorem find?_eq_none_iff : s.find? name = none ↔ name ∉ s.names := by
  induction s with
  | nil => simp [find?, names]
  | cons g s ih =>
      rw [find?]
      cases hfound : find? s name with
      | some found =>
          have hmem : name ∈ names s := by
            by_contra hnone
            rw [ih.mpr hnone] at hfound
            cases hfound
          refine iff_of_false nofun fun hnone => hnone ?_
          exact List.mem_cons_of_mem _ hmem
      | none =>
          have hnone : name ∉ names s := ih.mp hfound
          by_cases hname : g.name = name
          · simp [names, hname]
          · rw [names, List.map_cons, List.mem_cons, not_or]
            simp only [hname, if_false, true_iff]
            exact ⟨Ne.symm hname, hnone⟩

/-- **A search finds the last field of a name.** -/
theorem find?_eq_some_iff : s.find? name = some (i, f) ↔ s.IsLast name i f := by
  induction s generalizing i with
  | nil => exact iff_of_false nofun fun h => nomatch h.field
  | cons g s ih =>
      rw [find?]
      cases hfound : find? s name with
      | some found =>
          -- A field of the name comes later, so the first one is not meant.
          obtain ⟨j, later⟩ := found
          cases i with
          | zero =>
              rw [isLast_cons_zero]
              refine iff_of_false nofun ?_
              rintro ⟨-, -, hnone⟩
              rw [find?_eq_none_iff.mpr hnone] at hfound
              cases hfound
          | succ i =>
              rw [isLast_cons_succ, ← ih, hfound]
              simp
      | none =>
          have hnone := find?_eq_none_iff.mp hfound
          cases i with
          | zero =>
              rw [isLast_cons_zero]
              by_cases hname : g.name = name
              · simp [hname, hnone]
              · simp [hname]
          | succ i =>
              rw [isLast_cons_succ]
              refine iff_of_false ?_ fun h => hnone h.mem_names
              by_cases hname : g.name = name
              · simp [hname]
              · simp [hname]

theorem indexOf?_eq_map_find? (s : Schema) (name : String) :
    s.indexOf? name = (s.find? name).map Prod.fst := by
  induction s with
  | nil => rfl
  | cons f s ih =>
      rw [indexOf?, find?, ih]
      cases find? s name with
      | some found => rfl
      | none =>
          by_cases hname : f.name = name
          · simp [hname]
          · simp [hname]

theorem isSome_indexOf? : (s.indexOf? name).isSome = true ↔ name ∈ s.names := by
  rw [indexOf?_eq_map_find?, Option.isSome_map, ← Option.ne_none_iff_isSome, ne_eq,
    find?_eq_none_iff, not_not]

/-- **Where names differ, a name has one position.** -/
theorem indexOf?_eq_some_of_nodup (hdistinct : s.names.Nodup) :
    s.indexOf? name = some i ↔ s.names[i]? = some name := by
  rw [indexOf?_eq_map_find?, Option.map_eq_some_iff]
  constructor
  · rintro ⟨⟨_, f⟩, hfound, rfl⟩
    exact (find?_eq_some_iff.mp hfound).getElem?_names
  · intro hname
    obtain ⟨⟨j, f⟩, hfound⟩ : ∃ found, s.find? name = some found := by
      refine Option.ne_none_iff_exists'.mp fun hnone => ?_
      exact find?_eq_none_iff.mp hnone (List.mem_of_getElem? hname)
    have hother := (find?_eq_some_iff.mp hfound).getElem?_names
    obtain ⟨hi, -⟩ := List.getElem?_eq_some_iff.mp hname
    exact ⟨_, hfound, ((List.getElem?_inj hi hdistinct).mp (hname.trans hother.symm)).symm⟩

end Schema

/-! ## Names that come twice -/

/-- Takes note of a name: it is new, or it comes again. -/
def noteName (noted : List String × List String) (name : String) : List String × List String :=
  if noted.1.contains name then
    (noted.1, if noted.2.contains name then noted.2 else noted.2 ++ [name])
  else (noted.1 ++ [name], noted.2)

theorem duplicateNames_eq_foldl (names : List String) :
    duplicateNames names = (names.foldl noteName ([], [])).2 := rfl

/-- Nothing is noted twice if nothing was, and the names differ from one another and from those
seen before. -/
theorem foldl_noteName_eq_nil (names seen twice : List String) :
    (names.foldl noteName (seen, twice)).2 = [] ↔
      twice = [] ∧ names.Nodup ∧ ∀ name ∈ names, name ∉ seen := by
  induction names generalizing seen twice with
  | nil => simp
  | cons name names ih =>
      rw [List.foldl_cons, noteName]
      by_cases hseen : name ∈ seen
      · rw [if_pos (List.contains_iff_mem.mpr hseen), ih]
        refine iff_of_false ?_ fun h => h.2.2 name List.mem_cons_self hseen
        rintro ⟨hnone, -⟩
        split at hnone
        · next htwice =>
            rw [List.contains_iff_mem, hnone] at htwice
            cases htwice
        · exact List.append_ne_nil_of_right_ne_nil _ (List.cons_ne_nil _ _) hnone
      · rw [if_neg (mt List.contains_iff_mem.mp hseen), ih, List.nodup_cons, List.forall_mem_cons]
        constructor
        · rintro ⟨hnone, hnodup, hnew⟩
          have hname : name ∉ names := fun hmem => hnew name hmem (by simp)
          exact ⟨hnone, ⟨hname, hnodup⟩, hseen, fun other hother hmem =>
            hnew other hother (List.mem_append_left _ hmem)⟩
        · rintro ⟨hnone, ⟨hname, hnodup⟩, -, hnew⟩
          refine ⟨hnone, hnodup, fun other hother hmem => ?_⟩
          rcases List.mem_append.mp hmem with hold | hself
          · exact hnew other hother hold
          · rw [List.mem_singleton.mp hself] at hother
            exact hname hother

theorem duplicateNames_eq_nil_iff (names : List String) :
    duplicateNames names = [] ↔ names.Nodup := by
  rw [duplicateNames_eq_foldl, foldl_noteName_eq_nil]
  simp

end QueryPlan
