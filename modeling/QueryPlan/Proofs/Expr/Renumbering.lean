import QueryPlan.Proofs.Expr.Substitution

/-!
# Numbering references anew

What numbering anew should give is plain: the same expression with a function applied to the number
of every reference (`mapRefs`). The library gets there by substitution, which makes calls again
where a number changed and so goes through the rules for types once more.

The two agree on well-typed expressions (`result_remap`), since no rule looks at the number of a
reference. The laws of `mapRefs` then become laws of `remap`: it keeps types and the order of
references, does nothing where every number stays, and numbering anew twice is numbering anew once
(`remap_functorial`).
-/

namespace QueryPlan.Expr

/-! ## Applying a function to the numbers -/

mutual

/-- The same expression with another number for every reference. -/
def mapRefs (g : Nat → Nat) : Expr → Expr
  | literal value ty => literal value ty
  | ref index ty => ref (g index) ty
  | apply op operands ty => apply op (mapRefsAll g operands) ty

def mapRefsAll (g : Nat → Nat) : List Expr → List Expr
  | [] => []
  | e :: es => e.mapRefs g :: mapRefsAll g es

end

theorem mapRefsAll_eq_map (g : Nat → Nat) (es : List Expr) :
    mapRefsAll g es = es.map (mapRefs g) := by
  induction es with
  | nil => rfl
  | cons e es ih => rw [mapRefsAll, ih, List.map_cons]

theorem mapRefs_apply (g : Nat → Nat) (op : Operator) (operands : List Expr) (ty : Ty) :
    (apply op operands ty).mapRefs g = apply op (operands.map (mapRefs g)) ty := by
  rw [mapRefs, mapRefsAll_eq_map]

theorem refsAll_eq_flatMap (es : List Expr) : refsAll es = es.flatMap refs := by
  induction es with
  | nil => rfl
  | cons e es ih => rw [refsAll, ih, List.flatMap_cons]

theorem ty_mapRefs (g : Nat → Nat) (e : Expr) : (e.mapRefs g).ty = e.ty := by
  cases e <;> rfl

theorem refs_mapRefs (g : Nat → Nat) (e : Expr) :
    (e.mapRefs g).refs = e.refs.map fun r => (g r.1, r.2) := by
  induction e using operand_induction with
  | step e ih =>
      cases e with
      | literal value ty => rfl
      | ref index ty => rfl
      | apply op operands ty =>
          rw [mapRefs_apply, refs, refs, refsAll_eq_flatMap, refsAll_eq_flatMap, List.flatMap_map,
            List.map_flatMap]
          exact List.flatMap_congr ih

/-- Only the numbers that occur matter. -/
theorem mapRefs_congr {g h : Nat → Nat} {e : Expr} (hgh : ∀ r ∈ e.refs, g r.1 = h r.1) :
    e.mapRefs g = e.mapRefs h := by
  induction e using operand_induction with
  | step e ih =>
      cases e with
      | literal value ty => rfl
      | ref index ty =>
          have hindex : g index = h index := hgh (index, ty) (List.mem_singleton.mpr rfl)
          rw [mapRefs, mapRefs, hindex]
      | apply op operands ty =>
          rw [mapRefs_apply, mapRefs_apply]
          have hoperands : operands.map (mapRefs g) = operands.map (mapRefs h) := by
            refine List.map_congr_left fun o ho => ih o ho fun r hr => hgh r ?_
            exact mem_refsAll.mpr ⟨o, ho, hr⟩
          rw [hoperands]

theorem mapRefs_mapRefs (g h : Nat → Nat) (e : Expr) :
    (e.mapRefs g).mapRefs h = e.mapRefs (h ∘ g) := by
  induction e using operand_induction with
  | step e ih =>
      cases e with
      | literal value ty => rfl
      | ref index ty => rfl
      | apply op operands ty =>
          rw [mapRefs_apply, mapRefs_apply, mapRefs_apply, List.map_map]
          exact congrArg (apply op · ty) (List.map_congr_left ih)

/-- No rule for types looks at the number of a reference. -/
theorem standsFor_mapRefs (g : Nat → Nat) (e : Expr) : (e.mapRefs g).StandsFor e := by
  cases e with
  | literal value ty => exact .refl _
  | ref index ty => exact standsFor_of_ty rfl rfl
  | apply op operands ty => exact standsFor_of_ty rfl rfl

/-! ## What substitution makes of it -/

/-- The new number; the old one where there is none. -/
def renumbered (mapping : List Nat) (index : Nat) : Nat := mapping[index]?.getD index

section

variable {mapping : List Nat}

theorem renumber_eq_some {s r : Expr} (h : renumber mapping s = some r) :
    ∃ index number ty, s = .ref index ty ∧ mapping[index]? = some number ∧ r = .ref number ty := by
  cases s with
  | ref index ty =>
      obtain ⟨number, hnumber, rfl⟩ := Option.map_eq_some_iff.mp h
      exact ⟨index, number, ty, rfl, hnumber, rfl⟩
  | _ => cases h

theorem ref_equal_iff {i j : Nat} {s t : Ty} : (ref i s == ref j t) = true ↔ i = j ∧ s = t := by
  show equal _ _ = true ↔ _
  rw [equal, Bool.and_eq_true, beq_iff_eq, beq_iff_eq]

theorem exists_substitute_renumber {e : Expr} (he : e.WellTyped) :
    ∃ c, substitute (renumber mapping) e = .ok c := by
  obtain ⟨c, hc, -⟩ := exists_substitute (f := renumber mapping) (e := e) (fun s r hr => by
    obtain ⟨index, number, ty, rfl, -, rfl⟩ := renumber_eq_some hr
    exact standsFor_of_ty rfl rfl) he
  exact ⟨c, hc⟩

/-- The result is the expression with the new numbers, and it is the very expression given if they
are the old ones. -/
theorem result_substitute_renumber {e : Expr} {c : Change} (he : e.WellTyped)
    (h : substitute (renumber mapping) e = .ok c) :
    c.result e = e.mapRefs (renumbered mapping) ∧
      ((∀ r ∈ e.refs, renumbered mapping r.1 = r.1) → c.isKept = true) := by
  revert he
  refine substitute_induction h ?offered ?untouched ?rebuilt
  case offered =>
    intro e r hr _
    obtain ⟨index, number, ty, rfl, hnumber, rfl⟩ := renumber_eq_some hr
    have hsame : renumbered mapping index = number := by rw [renumbered, hnumber, Option.getD_some]
    unfold replaceBy
    split
    · next hequal =>
        obtain ⟨rfl, -⟩ := ref_equal_iff.mp hequal
        refine ⟨?_, fun _ => rfl⟩
        rw [mapRefs, hsame]
        rfl
    · next hdiffers =>
        refine ⟨?_, fun hfixed => absurd ?_ hdiffers⟩
        · rw [mapRefs, hsame]
          rfl
        · have hindex := hfixed (index, ty) (List.mem_singleton.mpr rfl)
          exact ref_equal_iff.mpr ⟨hsame.symm.trans hindex, rfl⟩
  case untouched =>
    intro e hnone ih he
    refine ⟨?_, fun _ => rfl⟩
    show e = _
    cases he with
    | literal v => rfl
    | ref index ty =>
        have hsame : renumbered mapping index = index := by
          rw [renumbered, Option.map_eq_none_iff.mp hnone, Option.getD_none]
        rw [mapRefs, hsame]
    | @apply op operands ty hoperands _ =>
        have hsame : operands.map (mapRefs (renumbered mapping)) = operands.map id :=
          List.map_congr_left fun o ho => (ih o ho (hoperands o ho)).1.symm
        rw [mapRefs_apply, hsame, List.map_id]
  case rebuilt =>
    intro op operands ty changes ty' _ ih hkept hty' he
    cases he with
    | apply hoperands hty =>
        have hboth := (List.forall₂_and_left _ _).mpr ⟨hoperands, ih⟩
        have hresults : Change.results operands changes =
            operands.map (mapRefs (renumbered mapping)) :=
          Change.results_eq_map (hboth.imp fun o c ho => (ho.2 ho.1).1)
        -- The rule for the type sees what it saw before, so the call has the type it had.
        have hstand : List.Forall₂ (fun o o' => o'.StandsFor o) operands
            (operands.map (mapRefs (renumbered mapping))) :=
          List.forall₂_map_right_iff.mpr (List.forall₂_same.mpr fun o _ => standsFor_mapRefs _ o)
        have hagain := Operator.resultType_of_standsFor hstand _ hty
        rw [hresults] at hty' ⊢
        cases hty'.symm.trans hagain
        refine ⟨(mapRefs_apply _ _ _ _).symm, fun hfixed => ?_⟩
        have hall : changes.all Change.isKept = true := by
          have hmem := (List.forall₂_and_left _ _).mpr ⟨fun o (ho : o ∈ operands) => ho, hboth⟩
          refine Change.all_isKept (hmem.imp fun o c ho => (ho.2.2 ho.2.1).2 fun r hr => ?_)
          exact hfixed r (mem_refsAll.mpr ⟨o, ho.1, hr⟩)
        rw [hall] at hkept
        cases hkept

end

/-! ## Numbering anew -/

section

variable {mapping : List Nat} {e : Expr} {c : Change}

/-- References without a new number are the only obstacle. -/
theorem remap_eq_ok : remap mapping e = .ok c ↔
    substitute (renumber mapping) e = .ok c ∧ ∀ r ∈ e.refs, r.1 < mapping.length := by
  unfold remap
  rw [bind_eq_ok]
  constructor
  · rintro ⟨c', hc', h⟩
    split at h
    · cases h
    · next hnone =>
        cases h
        rw [List.getLast?_eq_none_iff, List.filter_eq_nil_iff] at hnone
        exact ⟨hc', fun r hr => by simpa using hnone r hr⟩
  · rintro ⟨hc, hrefs⟩
    refine ⟨c, hc, ?_⟩
    split
    · next hsome =>
        obtain ⟨hr, hmissing⟩ := List.mem_filter.mp (List.mem_of_getLast? hsome)
        exact absurd (hrefs _ hr) (Nat.not_lt.mpr (of_decide_eq_true hmissing))
    · rfl

theorem exists_remap_iff (he : e.WellTyped) :
    (∃ c, remap mapping e = .ok c) ↔ ∀ r ∈ e.refs, r.1 < mapping.length := by
  constructor
  · rintro ⟨c, hc⟩
    exact (remap_eq_ok.mp hc).2
  · intro hrefs
    obtain ⟨c, hc⟩ := exists_substitute_renumber he
    exact ⟨c, remap_eq_ok.mpr ⟨hc, hrefs⟩⟩

theorem result_remap (he : e.WellTyped) (h : remap mapping e = .ok c) :
    c.result e = e.mapRefs (renumbered mapping) :=
  (result_substitute_renumber he (remap_eq_ok.mp h).1).1

theorem refs_remap (he : e.WellTyped) (h : remap mapping e = .ok c) :
    (c.result e).refs = e.refs.map fun r => (renumbered mapping r.1, r.2) := by
  rw [result_remap he h, refs_mapRefs]

theorem getElem?_renumbered {index : Nat} (h : index < mapping.length) :
    mapping[index]? = some (renumbered mapping index) := by
  rw [renumbered, List.getElem?_eq_getElem h, Option.getD_some]

end

/-- One numbering after another; where the second has no number, that of the first stays. -/
def composed (first second : List Nat) : List Nat := first.map (renumbered second)

theorem renumbered_composed {first second : List Nat} {index : Nat} (h : index < first.length) :
    renumbered (composed first second) index = renumbered second (renumbered first index) := by
  rw [renumbered, composed, List.getElem?_map, getElem?_renumbered h, Option.map_some,
    Option.getD_some]

/-- Numbering anew twice leads where a numbering leads that is the composition where it matters. -/
theorem exists_remap_once {first second once : List Nat} {e : Expr} {c d : Change}
    (he : e.WellTyped) (hc : remap first e = .ok c) (hd : remap second (c.result e) = .ok d)
    (honce : ∀ r ∈ e.refs, once[r.1]? = (composed first second)[r.1]?) :
    ∃ c', remap once e = .ok c' ∧ c'.result e = d.result (c.result e) := by
  have hrefs := (remap_eq_ok.mp hc).2
  have honceRefs : ∀ r ∈ e.refs, r.1 < once.length := by
    intro r hr
    have hlength : r.1 < (composed first second).length := by
      rw [composed, List.length_map]
      exact hrefs r hr
    have hsome := honce r hr
    rw [List.getElem?_eq_getElem hlength] at hsome
    exact (List.getElem?_eq_some_iff.mp hsome).1
  obtain ⟨c', hc'⟩ := (exists_remap_iff he).mpr honceRefs
  refine ⟨c', hc', ?_⟩
  rw [result_remap he hc', result_remap (wellTyped_remap he hc) hd, result_remap he hc,
    mapRefs_mapRefs]
  refine mapRefs_congr fun r hr => ?_
  show renumbered once r.1 = renumbered second (renumbered first r.1)
  rw [← renumbered_composed (hrefs r hr), renumbered, honce r hr, renumbered]

/-- **Numbering anew respects types, order, identities and composition.** It succeeds exactly if
there is a number for every reference. Then the type stays, and the references are those of the
expression in the same order, each with its new number. If all numbers stay, the very expression
given comes back. And numbering anew twice succeeds exactly if the second numbering has a number for
each that the first gives; it then leads where any numbering leads that is their composition on the
numbers used. -/
theorem remap_functorial {e : Expr} (he : e.WellTyped) (mapping : List Nat) :
    ((∃ c, remap mapping e = .ok c) ↔ ∀ r ∈ e.refs, r.1 < mapping.length) ∧
    ((∀ r ∈ e.refs, mapping[r.1]? = some r.1) → remap mapping e = .ok .kept) ∧
    ∀ c, remap mapping e = .ok c →
      (c.result e).ty = e.ty ∧
      List.Forall₂ (fun r s => mapping[r.1]? = some s.1 ∧ s.2 = r.2) e.refs (c.result e).refs ∧
      ∀ second : List Nat,
        ((∃ d, remap second (c.result e) = .ok d) ↔
          ∀ r ∈ e.refs, ∀ number, mapping[r.1]? = some number → number < second.length) ∧
        ∀ d, remap second (c.result e) = .ok d → ∀ once : List Nat,
          (∀ r ∈ e.refs, once[r.1]? = (composed mapping second)[r.1]?) →
          ∃ c', remap once e = .ok c' ∧ c'.result e = d.result (c.result e) := by
  refine ⟨exists_remap_iff he, fun hfixed => ?_, fun c hc => ?_⟩
  · have hrefs : ∀ r ∈ e.refs, r.1 < mapping.length := fun r hr =>
      (List.getElem?_eq_some_iff.mp (hfixed r hr)).1
    obtain ⟨c, hc⟩ := (exists_remap_iff he).mpr hrefs
    have hkept := (result_substitute_renumber he (remap_eq_ok.mp hc).1).2 fun r hr => by
      rw [renumbered, hfixed r hr, Option.getD_some]
    rw [hc, Change.eq_kept_of_isKept hkept]
  · have hrefs := (remap_eq_ok.mp hc).2
    have hsecond (second : List Nat) : (∀ s ∈ (c.result e).refs, s.1 < second.length) ↔
        ∀ r ∈ e.refs, renumbered mapping r.1 < second.length := by
      rw [refs_remap he hc, List.forall_mem_map]
    have hty : (c.result e).ty = e.ty := by rw [result_remap he hc, ty_mapRefs]
    refine ⟨hty, ?_, fun second => ⟨?_, fun d hd once honce => ?_⟩⟩
    · rw [refs_remap he hc, List.forall₂_map_right_iff, List.forall₂_same]
      exact fun r hr => ⟨getElem?_renumbered (hrefs r hr), rfl⟩
    · rw [exists_remap_iff (wellTyped_remap he hc), hsecond]
      constructor
      · intro hcovers r hr number hnumber
        cases (getElem?_renumbered (hrefs r hr)).symm.trans hnumber
        exact hcovers r hr
      · intro hcovers r hr
        exact hcovers r hr _ (getElem?_renumbered (hrefs r hr))
    · exact exists_remap_once he hc hd honce

/-- Whether a field is less than another, with a field between them that is not used. -/
def comparison : Expr := .apply .lt [.ref 0 .int64, .ref 2 .int64] .bool

/-- The two fields change places and are then taken to one. What the numberings say of the field
between them does not matter. -/
theorem comparison_collapsed :
    ∃ c d, remap [1, 7, 0] comparison = .ok c ∧
      c.result comparison = .apply .lt [.ref 1 .int64, .ref 0 .int64] .bool ∧
      remap [4, 4] (c.result comparison) = .ok d ∧
      ∃ c', remap [4, 9, 4] comparison = .ok c' ∧
        c'.result comparison = d.result (c.result comparison) := by
  have hwell : comparison.WellTyped := by
    refine .apply (List.forall_mem_cons.mpr ⟨.ref 0 _, ?_⟩) rfl
    exact List.forall_mem_singleton.mpr (.ref 2 _)
  obtain ⟨-, -, hremap⟩ := remap_functorial hwell [1, 7, 0]
  obtain ⟨-, -, hsecond⟩ := hremap _ rfl
  exact ⟨_, _, rfl, rfl, rfl, (hsecond [4, 4]).2 _ rfl [4, 9, 4] (by decide)⟩

end QueryPlan.Expr
