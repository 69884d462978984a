import Mathlib.Data.List.Forall2
import QueryPlan.Expr.Substitute
import QueryPlan.Proofs.Outcome

/-!
# Well-typed expressions

The bare constructors of `Expr` record any type they are given. `Expr.Built` are the expressions
made without them: literals, references, calls, and tests of texts. `Expr.WellTyped` says that each
part of an expression records the type that follows from what it is made of.

Everything built is well typed, and substitution keeps it so: a call is either kept with its
operands or made again, and making it derives its type anew. Nothing here depends on which operator
is applied.
-/

namespace QueryPlan.Expr

/-- Expressions made by the functions that derive types. -/
inductive Built : Expr → Prop
  | ofValue (v : Value) : Built (.ofValue v)
  | ref (index : Nat) (ty : Ty) : Built (.ref index ty)
  | call {op : Operator} {operands : List Expr} {e : Expr} :
      (∀ o ∈ operands, Built o) → Expr.call op operands = .ok e → Built e
  | stringTest {test : StringTest} {subject part e : Expr} :
      Built subject → Built part → Expr.stringTest test subject part = .ok e → Built e

/-- The expression itself, its operands, their operands and so on. -/
inductive IsPartOf : Expr → Expr → Prop
  | self (e : Expr) : IsPartOf e e
  | operand {s o : Expr} {op : Operator} {operands : List Expr} {ty : Ty} :
      IsPartOf s o → o ∈ operands → IsPartOf s (.apply op operands ty)

/-- The type recorded is that of the value, or the one the operator gives for the operands. A
reference may claim any type. -/
def RecordsType : Expr → Prop
  | literal value ty => ty = value.ty
  | ref _ _ => True
  | apply op operands ty => op.resultType operands = .ok ty

/-- Every part records its type. -/
inductive WellTyped : Expr → Prop
  | literal (v : Value) : WellTyped (.literal v v.ty)
  | ref (index : Nat) (ty : Ty) : WellTyped (.ref index ty)
  | apply {op : Operator} {operands : List Expr} {ty : Ty} :
      (∀ o ∈ operands, WellTyped o) → op.resultType operands = .ok ty →
      WellTyped (.apply op operands ty)

theorem WellTyped.recordsType {e : Expr} (h : WellTyped e) : e.RecordsType := by
  cases h with
  | literal v => rfl
  | ref index ty => trivial
  | apply _ hty => exact hty

theorem WellTyped.part {s e : Expr} (h : WellTyped e) (hs : s.IsPartOf e) : WellTyped s := by
  induction hs with
  | self => exact h
  | operand _ ho ih =>
      cases h with
      | apply hoperands _ => exact ih (hoperands _ ho)

/-! ## References are parts -/

theorem mem_refsAll {r : Nat × Ty} {es : List Expr} :
    r ∈ refsAll es ↔ ∃ e ∈ es, r ∈ e.refs := by
  induction es with
  | nil => simp [refsAll]
  | cons e es ih => simp [refsAll, ih]

theorem refsAll_append (xs ys : List Expr) :
    refsAll (xs ++ ys) = refsAll xs ++ refsAll ys := by
  induction xs with
  | nil => rfl
  | cons x xs ih => rw [List.cons_append, refsAll, ih, refsAll, List.append_assoc]

theorem refsAll_singleton (x : Expr) : refsAll [x] = x.refs := by
  rw [refsAll, refsAll, List.append_nil]

/-- A reference inside an expression is among those it lists. -/
theorem mem_refs_of_isPartOf {index : Nat} {ty : Ty} {e : Expr}
    (h : (Expr.ref index ty).IsPartOf e) : (index, ty) ∈ e.refs := by
  generalize hs : Expr.ref index ty = s at h
  induction h with
  | self =>
      subst hs
      simp [refs]
  | operand _ ho ih =>
      rw [refs]
      exact mem_refsAll.mpr ⟨_, ho, ih⟩

/-! ## What is built is well typed -/

/-- A call is well typed over well-typed operands, whatever the operator. -/
theorem wellTyped_call {op : Operator} {operands : List Expr} {e : Expr}
    (hoperands : ∀ o ∈ operands, WellTyped o) (h : call op operands = .ok e) : WellTyped e := by
  obtain ⟨ty, hty, he⟩ := bind_eq_ok.mp h
  cases he
  exact .apply hoperands hty

theorem wellTyped_stringTest {test : StringTest} {subject part e : Expr}
    (hsubject : WellTyped subject) (h : stringTest test subject part = .ok e) : WellTyped e := by
  unfold stringTest at h
  split at h
  · refine wellTyped_call ?_ h
    intro o ho
    rcases List.mem_cons.mp ho with rfl | ho
    · exact hsubject
    · rw [List.mem_singleton.mp ho]
      exact .literal _
  · cases h

theorem Built.wellTyped {e : Expr} (h : Built e) : WellTyped e := by
  induction h with
  | ofValue v => exact .literal v
  | ref index ty => exact .ref index ty
  | call _ hcall ih => exact wellTyped_call ih hcall
  | stringTest _ _ htest ih _ => exact wellTyped_stringTest ih htest

/-! ## Substitution -/

/-- A replacement stands in for the expression, or is dropped because it equals it. -/
theorem wellTyped_replaceBy {e r : Expr} (he : WellTyped e) (hr : WellTyped r) :
    WellTyped ((replaceBy e r).result e) := by
  unfold replaceBy
  split
  · exact he
  · exact hr

/-- Operands after their changes, one by one. -/
theorem wellTyped_results {es : List Expr} {cs : List Change}
    (h : List.Forall₂ (fun e c => WellTyped (Change.result e c)) es cs) :
    ∀ o ∈ Change.results es cs, WellTyped o := by
  induction h with
  | nil => simp [Change.results]
  | cons hfirst _ ih => exact List.forall_mem_cons.mpr ⟨hfirst, ih⟩

-- The recursion is that of `substitute`. A kept call keeps its type along with its operands; one
-- with a changed operand is made again by `call`, so its old type does not matter.
mutual

theorem wellTyped_substitute {f : Expr → Option Expr} (hf : ∀ s r, f s = some r → WellTyped r) :
    ∀ {e : Expr} {c : Change}, WellTyped e → substitute f e = .ok c → WellTyped (c.result e)
  | .literal v ty, c, he, h => by
      unfold substitute at h
      split at h
      · next r hr =>
          cases h
          exact wellTyped_replaceBy he (hf _ r hr)
      · cases h
        exact he
  | .ref index ty, c, he, h => by
      unfold substitute at h
      split at h
      · next r hr =>
          cases h
          exact wellTyped_replaceBy he (hf _ r hr)
      · cases h
        exact he
  | .apply op operands ty, c, he, h => by
      unfold substitute at h
      split at h
      · next r hr =>
          cases h
          exact wellTyped_replaceBy he (hf _ r hr)
      · obtain ⟨changes, hchanges, h⟩ := bind_eq_ok.mp h
        have hoperands : ∀ o ∈ operands, WellTyped o := by
          cases he with
          | apply hoperands _ => exact hoperands
        split at h
        · cases h
          exact he
        · obtain ⟨e', hcall, h⟩ := bind_eq_ok.mp h
          cases h
          have hresults := wellTyped_results (wellTyped_substituteAll hf hoperands hchanges)
          exact wellTyped_call hresults hcall

theorem wellTyped_substituteAll {f : Expr → Option Expr}
    (hf : ∀ s r, f s = some r → WellTyped r) :
    ∀ {es : List Expr} {cs : List Change}, (∀ e ∈ es, WellTyped e) →
      substituteAll f es = .ok cs → List.Forall₂ (fun e c => WellTyped (Change.result e c)) es cs
  | [], cs, _, h => by
      cases h
      exact .nil
  | e :: es, cs, hes, h => by
      obtain ⟨he, hes⟩ := List.forall_mem_cons.mp hes
      obtain ⟨c, hc, h⟩ := bind_eq_ok.mp h
      obtain ⟨rest, hrest, h⟩ := bind_eq_ok.mp h
      cases h
      exact .cons (wellTyped_substitute hf he hc) (wellTyped_substituteAll hf hes hrest)

end

theorem wellTyped_replace {target replacement e : Expr} {c : Change} (he : WellTyped e)
    (hreplacement : WellTyped replacement) (h : replace target replacement e = .ok c) :
    WellTyped (c.result e) := by
  refine wellTyped_substitute ?_ he h
  intro s r hr
  split at hr
  · cases hr
    exact hreplacement
  · cases hr

theorem wellTyped_renumber {mapping : List Nat} {s r : Expr} (h : renumber mapping s = some r) :
    WellTyped r := by
  cases s with
  | ref index ty =>
      obtain ⟨i, -, rfl⟩ := Option.map_eq_some_iff.mp h
      exact .ref i ty
  | literal _ _ => cases h
  | apply _ _ _ => cases h

theorem wellTyped_remap {mapping : List Nat} {e : Expr} {c : Change} (he : WellTyped e)
    (h : remap mapping e = .ok c) : WellTyped (c.result e) := by
  obtain ⟨c', hc, h⟩ := bind_eq_ok.mp h
  split at h
  · cases h
  · cases h
    exact wellTyped_substitute (fun _ _ hr => wellTyped_renumber hr) he hc

end QueryPlan.Expr
