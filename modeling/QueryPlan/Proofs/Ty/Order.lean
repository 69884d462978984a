import Mathlib.Order.Bounds.Basic
import Mathlib.Order.Lattice
import QueryPlan.Proofs.Lists
import QueryPlan.Ty

/-!
# Types in order

A type is below another if whatever has the first also has the second: `null` is below every type,
every type below `any`, integers are below floats, and lists are ordered as their elements are.
`Below` is generated by these rules; what it comes to is said case by case in `below_iff`.

`unify` gives the least type above two types, and `common` the least type above all types of a list.
The common type of a list is thus a matter of which types stand in it, not of where or how often.
-/

namespace QueryPlan.Ty

/-- The order of types. -/
inductive Below : Ty → Ty → Prop
  | refl (a : Ty) : Below a a
  | trans {a b c : Ty} : Below a b → Below b c → Below a c
  | null (a : Ty) : Below null a
  | any (a : Ty) : Below a any
  | widens : Below int64 float64
  | list {a b : Ty} : Below a b → Below (list a) (list b)

/-- One rule is always enough. -/
theorem below_iff {a b : Ty} :
    Below a b ↔ a = b ∨ a = null ∨ b = any ∨ (a = int64 ∧ b = float64) ∨
      ∃ s t, a = list s ∧ b = list t ∧ Below s t := by
  constructor
  · intro h
    induction h with
    | refl a => exact .inl rfl
    | null a => exact .inr (.inl rfl)
    | any a => exact .inr (.inr (.inl rfl))
    | widens => exact .inr (.inr (.inr (.inl ⟨rfl, rfl⟩)))
    | list h => exact .inr (.inr (.inr (.inr ⟨_, _, rfl, rfl, h⟩)))
    | trans _ _ hab hbc =>
        -- The second rule can go on from where the first ends only if it is of the same kind, ends
        -- at `any`, or does nothing.
        rcases hab with rfl | rfl | rfl | ⟨rfl, rfl⟩ | ⟨r, s, rfl, rfl, hrs⟩
        · exact hbc
        · exact .inr (.inl rfl)
        · rcases hbc with rfl | h | rfl | ⟨h, -⟩ | ⟨_, _, h, -, -⟩
          · exact .inr (.inr (.inl rfl))
          · cases h
          · exact .inr (.inr (.inl rfl))
          · cases h
          · cases h
        · rcases hbc with rfl | h | rfl | ⟨h, -⟩ | ⟨_, _, h, -, -⟩
          · exact .inr (.inr (.inr (.inl ⟨rfl, rfl⟩)))
          · cases h
          · exact .inr (.inr (.inl rfl))
          · cases h
          · cases h
        · rcases hbc with rfl | h | rfl | ⟨h, -⟩ | ⟨_, t, h, rfl, hst⟩
          · exact .inr (.inr (.inr (.inr ⟨r, s, rfl, rfl, hrs⟩)))
          · cases h
          · exact .inr (.inr (.inl rfl))
          · cases h
          · cases h
            exact .inr (.inr (.inr (.inr ⟨r, t, rfl, rfl, hrs.trans hst⟩)))
  · rintro (rfl | rfl | rfl | ⟨rfl, rfl⟩ | ⟨s, t, rfl, rfl, h⟩)
    · exact .refl a
    · exact .null b
    · exact .any a
    · exact .widens
    · exact .list h

theorem below_null_iff {a : Ty} : Below a null ↔ a = null := by
  rw [below_iff]
  simp

theorem any_below_iff {c : Ty} : Below any c ↔ c = any := by
  rw [below_iff]
  simp [eq_comm]

/-- Above a list there are lists, and `any`. -/
theorem list_below_iff {a c : Ty} :
    Below (list a) c ↔ c = any ∨ ∃ t, c = list t ∧ Below a t := by
  rw [below_iff]
  constructor
  · rintro (rfl | h | rfl | ⟨h, -⟩ | ⟨s, t, h, rfl, hst⟩)
    · exact .inr ⟨a, rfl, .refl a⟩
    · cases h
    · exact .inl rfl
    · cases h
    · cases h
      exact .inr ⟨t, rfl, hst⟩
  · rintro (rfl | ⟨t, rfl, h⟩)
    · exact .inr (.inr (.inl rfl))
    · exact .inr (.inr (.inr (.inr ⟨a, t, rfl, rfl, h⟩)))

theorem Below.antisymm {a b : Ty} (hab : Below a b) (hba : Below b a) : a = b := by
  induction hab with
  | refl a => rfl
  | trans hab hbc ihab ihbc => exact (ihab (hbc.trans hba)).trans (ihbc (hba.trans hab))
  | null a => exact (below_null_iff.mp hba).symm
  | any a => exact any_below_iff.mp hba
  | widens =>
      rw [below_iff] at hba
      simp at hba
  | list hab ih =>
      rcases list_below_iff.mp hba with h | ⟨t, h, hba⟩
      · cases h
      · cases h
        rw [ih hba]

instance : PartialOrder Ty where
  le := Below
  le_refl := .refl
  le_trans _ _ _ := .trans
  le_antisymm _ _ := Below.antisymm

/-! ## The join of two types -/

theorem below_unify_left (a b : Ty) : Below a (a.unify b) := by
  fun_induction unify a b with
  | case1 a b ih => exact .list ih
  | case2 b => exact .null b
  | case3 a => exact .refl a
  | case4 => exact .widens
  | case5 => exact .refl float64
  | case6 a => exact .refl a
  | case7 a b => exact .any a

theorem below_unify_right (a b : Ty) : Below b (a.unify b) := by
  fun_induction unify a b with
  | case1 a b ih => exact .list ih
  | case2 b => exact .refl b
  | case3 a => exact .null a
  | case4 => exact .refl float64
  | case5 => exact .widens
  | case6 a => exact .refl a
  | case7 a b => exact .any b

theorem unify_below {a b c : Ty} (ha : Below a c) (hb : Below b c) : Below (a.unify b) c := by
  fun_induction unify a b generalizing c with
  | case1 a b ih =>
      rcases list_below_iff.mp ha with rfl | ⟨t, rfl, hat⟩
      · exact .any _
      · rcases list_below_iff.mp hb with h | ⟨t', h, hbt⟩
        · cases h
        · cases h
          exact .list (ih hat hbt)
  | case2 b => exact hb
  | case3 a => exact ha
  | case4 => exact hb
  | case5 => exact ha
  | case6 a => exact ha
  | case7 a b hlists hnull hnull' hwidens hwidens' hne =>
      -- Two types that no rule joins have only `any` above both.
      rcases below_iff.mp ha with rfl | rfl | rfl | ⟨rfl, rfl⟩ | ⟨s, t, rfl, rfl, -⟩
      · rcases below_iff.mp hb with rfl | rfl | rfl | ⟨rfl, rfl⟩ | ⟨s, t, rfl, rfl, -⟩
        · exact absurd rfl hne
        · exact absurd rfl hnull'
        · exact .refl any
        · exact absurd rfl (hwidens' rfl)
        · exact absurd rfl (hlists t s rfl)
      · exact absurd rfl hnull
      · exact .refl any
      · rcases below_iff.mp hb with rfl | rfl | h | ⟨rfl, -⟩ | ⟨_, _, -, h, -⟩
        · exact absurd rfl (hwidens rfl)
        · exact absurd rfl hnull'
        · cases h
        · exact absurd rfl hne
        · cases h
      · rcases below_iff.mp hb with rfl | rfl | h | ⟨-, h⟩ | ⟨r, _, rfl, -, -⟩
        · exact absurd rfl (hlists s t rfl)
        · exact absurd rfl hnull'
        · cases h
        · cases h
        · exact absurd rfl (hlists s r rfl)

/-- Types form a join semilattice, and its join is `unify`. -/
instance : SemilatticeSup Ty where
  sup := unify
  le_sup_left := below_unify_left
  le_sup_right := below_unify_right
  sup_le _ _ _ := unify_below

theorem unify_eq_sup (a b : Ty) : a.unify b = a ⊔ b := rfl

theorem unify_eq_right_iff {a b : Ty} : a.unify b = b ↔ a ≤ b := sup_eq_right

theorem unify_comm (a b : Ty) : a.unify b = b.unify a := sup_comm a b

theorem isLUB_unify (a b : Ty) : IsLUB {a, b} (a.unify b) := isLUB_pair

theorem le_any (a : Ty) : a ≤ any := .any a

theorem list_le_list {a b : Ty} (h : a ≤ b) : list a ≤ list b := .list h

theorem unify_any (a : Ty) : a.unify any = any := sup_eq_right.mpr (le_any a)

theorem any_unify (a : Ty) : any.unify a = any := sup_eq_left.mpr (le_any a)

/-! ## The common type of several types -/

theorem foldl_unify_le_iff {t c : Ty} {ts : List Ty} :
    ts.foldl unify t ≤ c ↔ t ≤ c ∧ ∀ u ∈ ts, u ≤ c := by
  induction ts generalizing t with
  | nil => simp
  | cons u us ih =>
      rw [List.foldl_cons, ih, unify_eq_sup, sup_le_iff, List.forall_mem_cons, and_assoc]

/-- What is above the common type is above each type. -/
theorem common_le_iff {ts : List Ty} (h : ts ≠ []) {c : Ty} :
    common ts ≤ c ↔ ∀ t ∈ ts, t ≤ c := by
  cases ts with
  | nil => exact absurd rfl h
  | cons t ts => rw [common, foldl_unify_le_iff, List.forall_mem_cons]

theorem le_common {t : Ty} {ts : List Ty} (h : t ∈ ts) : t ≤ common ts :=
  (common_le_iff (List.ne_nil_of_mem h)).mp le_rfl t h

/-- Higher types have a higher common type. -/
theorem common_mono {ss ts : List Ty} (h : List.Forall₂ (· ≤ ·) ss ts) : common ss ≤ common ts := by
  by_cases hss : ss = []
  · subst hss
    rw [List.forall₂_nil_left_iff.mp h]
  · refine (common_le_iff hss).mpr fun s hs => ?_
    obtain ⟨i, hi⟩ := List.mem_iff_getElem?.mp hs
    obtain ⟨t, ht, hst⟩ := exists_getElem?_of_forall₂ h hi
    exact hst.trans (le_common (List.mem_of_getElem? ht))

/-- **The common type of a list depends only on which types stand in it.** -/
theorem common_congr {ss ts : List Ty} (h : SameMembers ss ts) : common ss = common ts := by
  by_cases hss : ss = []
  · rw [hss, h.eq_nil_iff.mp hss]
  · have hts : ts ≠ [] := fun hts => hss (h.eq_nil_iff.mpr hts)
    refine eq_of_forall_ge_iff fun c => ?_
    rw [common_le_iff hss, common_le_iff hts]
    exact forall_congr' fun t => by rw [h t]

end QueryPlan.Ty
