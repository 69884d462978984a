import QueryPlan.Proofs.Expr.TypeRules

/-!
# What substitution can do

An expression that a substitution reaches is offered for replacement. If nothing is put in its
place, it is kept with all its operands, or made again as a call because some operand changed. That
is said once, as an induction on successful substitutions (`substitute_induction`); what holds of a
result is proved by it.

That there is a result needs an induction on the expression. It goes through whenever replacements
stand for what they replace, as far as the rules for types can see (`exists_substitute`).
-/

namespace QueryPlan.Expr

theorem sizeOf_lt_of_mem_operands {o e : Expr} (h : o ∈ e.operands) : sizeOf o < sizeOf e := by
  cases e with
  | apply op operands ty =>
      have hlt : sizeOf o < sizeOf operands := List.sizeOf_lt_of_mem h
      simp only [apply.sizeOf_spec]
      omega
  | _ => cases h

/-- What holds of an expression whenever it holds of its operands holds of every expression. -/
@[elab_as_elim]
theorem operand_induction {motive : Expr → Prop}
    (step : ∀ e : Expr, (∀ o ∈ e.operands, motive o) → motive e) (e : Expr) : motive e :=
  step e fun o ho =>
    have := sizeOf_lt_of_mem_operands ho
    operand_induction step o
termination_by sizeOf e

/-- A reference that an expression lists is a part of it. -/
theorem isPartOf_of_mem_refs {r : Nat × Ty} {e : Expr} (h : r ∈ e.refs) :
    (ref r.1 r.2).IsPartOf e := by
  induction e using operand_induction with
  | step e ih =>
      cases e with
      | literal value ty => cases h
      | ref index ty =>
          obtain rfl := List.mem_singleton.mp h
          exact .self _
      | apply op operands ty =>
          obtain ⟨o, ho, hr⟩ := mem_refsAll.mp h
          exact .operand (ih o ho hr) ho

/-! ## Changes of operands -/

namespace Change

theorem eq_kept_of_isKept {c : Change} (h : c.isKept = true) : c = kept := by
  cases c with
  | kept => rfl
  | _ => cases h

section

variable {es : List Expr} {cs : List Change}

/-- If all operands are kept, then what is known of them is known of kept ones. -/
theorem forall_kept {R : Expr → Change → Prop} (h : List.Forall₂ R es cs)
    (hkept : cs.all isKept = true) : ∀ e ∈ es, R e kept := by
  intro e he
  obtain ⟨i, hi⟩ := List.mem_iff_getElem?.mp he
  obtain ⟨c, hc, hR⟩ := exists_getElem?_of_forall₂ h hi
  have hcKept : c = kept :=
    eq_kept_of_isKept (List.all_eq_true.mp hkept c (List.mem_of_getElem? hc))
  exact hcKept ▸ hR

theorem all_isKept (h : List.Forall₂ (fun (_ : Expr) c => c.isKept = true) es cs) :
    cs.all isKept = true := by
  refine List.all_eq_true.mpr fun c hc => ?_
  obtain ⟨e, -, hkept⟩ := exists_mem_of_forall₂ h hc
  exact hkept

theorem results_eq_map {g : Expr → Expr} (h : List.Forall₂ (fun e c => c.result e = g e) es cs) :
    results es cs = es.map g := by
  induction h with
  | nil => rfl
  | cons hfirst _ ih => rw [results, hfirst, ih, List.map_cons]

/-- What is known of each operand and its result is known of the two lists of them. -/
theorem forall₂_results {R : Expr → Expr → Prop}
    (h : List.Forall₂ (fun e c => R e (c.result e)) es cs) :
    List.Forall₂ R es (results es cs) := by
  induction h with
  | nil => exact .nil
  | cons hfirst _ ih => exact .cons hfirst ih

end

end Change

/-! ## Successful substitutions -/

section

variable {f : Expr → Option Expr}

theorem substitute_of_some {e r : Expr} (h : f e = some r) :
    substitute f e = .ok (replaceBy e r) := by
  cases e <;> simp only [substitute, h]

theorem substitute_call {op : Operator} {operands : List Expr} {ty : Ty}
    (h : f (.apply op operands ty) = none) :
    substitute f (.apply op operands ty) = do
      let changes ← substituteAll f operands
      if changes.all Change.isKept then return .kept
      else return .rebuilt (← call op (Change.results operands changes)) changes := by
  rw [substitute, h]

theorem substituteAll_eq_ok {es : List Expr} {cs : List Change} :
    substituteAll f es = .ok cs ↔ List.Forall₂ (fun e c => substitute f e = .ok c) es cs := by
  induction es generalizing cs with
  | nil => simp [substituteAll, eq_comm]
  | cons e es ih =>
      rw [substituteAll, bind_eq_ok]
      constructor
      · rintro ⟨c, hc, h⟩
        obtain ⟨rest, hrest, h⟩ := bind_eq_ok.mp h
        cases h
        exact .cons hc (ih.mp hrest)
      · rintro (_ | ⟨hc, hrest⟩)
        exact ⟨_, hc, bind_eq_ok.mpr ⟨_, ih.mpr hrest, rfl⟩⟩

/-- Induction on a successful substitution: an expression is offered and replaced, or untouched, or
it is a call with a changed operand. -/
@[elab_as_elim]
theorem substitute_induction {motive : Expr → Change → Prop} {e : Expr} {c : Change}
    (h : substitute f e = .ok c) (offered : ∀ e r, f e = some r → motive e (replaceBy e r))
    (untouched : ∀ e, f e = none → (∀ o ∈ e.operands, motive o .kept) → motive e .kept)
    (rebuilt : ∀ op operands ty changes ty', f (.apply op operands ty) = none →
      List.Forall₂ motive operands changes → changes.all Change.isKept = false →
      op.resultType (Change.results operands changes) = .ok ty' →
      motive (.apply op operands ty)
        (.rebuilt (.apply op (Change.results operands changes) ty') changes)) :
    motive e c := by
  induction e using operand_induction generalizing c with
  | step e ih =>
      cases hf : f e with
      | some r =>
          rw [substitute_of_some hf] at h
          cases h
          exact offered e r hf
      | none =>
          cases e with
          | literal | ref =>
              rw [substitute, hf] at h
              cases h
              exact untouched _ hf (List.forall_mem_nil _)
          | apply op operands ty =>
              rw [substitute_call hf] at h
              obtain ⟨changes, hchanges, h⟩ := bind_eq_ok.mp h
              have hoperands : List.Forall₂ motive operands changes := by
                have hboth := (List.forall₂_and_left _ _).mpr ⟨ih, substituteAll_eq_ok.mp hchanges⟩
                exact hboth.imp fun o d ho => ho.1 ho.2
              by_cases hkept : changes.all Change.isKept = true
              · rw [if_pos hkept] at h
                cases h
                exact untouched _ hf (Change.forall_kept hoperands hkept)
              · rw [if_neg hkept] at h
                obtain ⟨e', hcall, h⟩ := bind_eq_ok.mp h
                obtain ⟨ty', hty, he⟩ := bind_eq_ok.mp hcall
                cases he
                cases h
                exact rebuilt _ _ _ _ _ hf hoperands (Bool.eq_false_iff.mpr hkept) hty

theorem standsFor_replaceBy {e r : Expr} (h : r.StandsFor e) :
    ((replaceBy e r).result e).StandsFor e := by
  unfold replaceBy
  split
  · exact .refl e
  · exact h

/-- **A substitution succeeds if replacements stand for what they replace.** Then each result stands
for the expression it comes from, so that every call can be made again with the type it had. -/
theorem exists_substitute (hf : ∀ s r, f s = some r → r.StandsFor s) {e : Expr} (he : e.WellTyped) :
    ∃ c, substitute f e = .ok c ∧ (c.result e).StandsFor e := by
  induction e using operand_induction with
  | step e ih =>
      cases hoffer : f e with
      | some r => exact ⟨_, substitute_of_some hoffer, standsFor_replaceBy (hf e r hoffer)⟩
      | none =>
          cases he with
          | literal | ref => exact ⟨.kept, by rw [substitute, hoffer], .refl _⟩
          | @apply op operands ty hoperands hty =>
              obtain ⟨changes, hchanges⟩ := exists_forall₂ fun o ho => ih o ho (hoperands o ho)
              have hall : substituteAll f operands = .ok changes :=
                substituteAll_eq_ok.mpr (hchanges.imp fun _ _ h => h.1)
              have hstand : List.Forall₂ (fun o o' => o'.StandsFor o) operands
                  (Change.results operands changes) :=
                Change.forall₂_results (hchanges.imp fun _ _ h => h.2)
              have hty' := Operator.resultType_of_standsFor hstand ty hty
              rw [substitute_call hoffer, hall, ok_bind]
              split
              · exact ⟨.kept, rfl, .refl _⟩
              · refine ⟨_, bind_eq_ok.mpr ⟨_, bind_eq_ok.mpr ⟨ty, hty', rfl⟩, rfl⟩, ?_⟩
                exact standsFor_of_ty rfl rfl

/-- A substitution brings in no references but those of its replacements. -/
theorem mem_refs_substitute {e : Expr} {c : Change} (h : substitute f e = .ok c) :
    ∀ x ∈ (c.result e).refs, x ∈ e.refs ∨ ∃ s r, f s = some r ∧ x ∈ r.refs := by
  refine substitute_induction h ?offered ?untouched ?rebuilt
  case offered =>
    intro e r hoffer x hx
    unfold replaceBy at hx
    split at hx
    · exact Or.inl hx
    · exact Or.inr ⟨e, r, hoffer, hx⟩
  case untouched =>
    intro e _ _ x hx
    exact Or.inl hx
  case rebuilt =>
    intro op operands ty changes ty' _ ih _ _ x hx
    obtain ⟨o', ho', hx⟩ := mem_refsAll.mp hx
    have hresults : List.Forall₂ (fun o o' => ∀ x ∈ o'.refs,
        x ∈ o.refs ∨ ∃ s r, f s = some r ∧ x ∈ r.refs) operands (Change.results operands changes) :=
      Change.forall₂_results ih
    obtain ⟨o, ho, hsource⟩ := exists_mem_of_forall₂ hresults ho'
    rcases hsource x hx with hold | hnew
    · exact Or.inl (mem_refsAll.mpr ⟨o, ho, hold⟩)
    · exact Or.inr hnew

end

/-! ## Replacing one expression by another -/

/-- Offers `replacement` for what equals `target`. -/
def offer (target replacement : Expr) (s : Expr) : Option Expr :=
  if s == target then some replacement else none

theorem offer_eq_some {target replacement s r : Expr} :
    offer target replacement s = some r ↔ (s == target) = true ∧ replacement = r := by
  unfold offer
  split <;> simp_all

theorem literal?_eq_none_of_equal {a b : Expr} (h : (a == b) = true) (hb : b.literal? = none) :
    a.literal? = none := by
  change a.equal b = true at h
  cases a with
  | literal v s =>
      cases b with
      | literal w t => cases hb
      | _ => simp [equal] at h
  | _ => rfl

/-- **Replacing what is no literal by something of its type succeeds.** -/
theorem exists_replace {target replacement : Expr} (htarget : target.literal? = none)
    (hty : replacement.ty = target.ty) {e : Expr} (he : e.WellTyped) :
    ∃ c, replace target replacement e = .ok c ∧ (c.result e).StandsFor e := by
  refine exists_substitute (f := offer target replacement) ?_ he
  intro s r hr
  obtain ⟨hequal, rfl⟩ := offer_eq_some.mp hr
  -- What equals the target is no literal either, so that no rule ever looked into it.
  refine standsFor_of_ty (literal?_eq_none_of_equal hequal htarget) ?_
  rw [hty, (standsFor_of_equal hequal).2.ty]

theorem mem_refs_replace {target replacement e : Expr} {c : Change}
    (h : replace target replacement e = .ok c) :
    ∀ x ∈ (c.result e).refs, x ∈ e.refs ∨ x ∈ replacement.refs := by
  intro x hx
  rcases mem_refs_substitute h x hx with hold | ⟨s, r, hr, hnew⟩
  · exact Or.inl hold
  · obtain ⟨-, rfl⟩ := offer_eq_some.mp hr
    exact Or.inr hnew

end QueryPlan.Expr
