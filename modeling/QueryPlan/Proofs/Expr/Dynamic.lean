import QueryPlan.Proofs.Expr.TypeRules
import QueryPlan.Proofs.Ty.Order

/-!
# Operands that are known only when the plan runs

An operand of type `any` may turn out to be whatever a rule wants, so that the rules let it pass
where they look at nothing but the type of an operand (`Operator.typedAt`). The call then has a type
above the one it had, since less is known of it (`resultType_set`).

A sum is the exception. Its rule is chosen by what the operands are: a list makes the sum a list
whatever is added to it, while something dynamic counts as text beside a text and as a number beside
anything else. So a list cannot always be exchanged for something dynamic.
-/

namespace QueryPlan

/-! ## Outcomes with a higher type -/

/-- Where the first computation gives a type, the second gives one above it. -/
def Loosens (x y : Except Error Ty) : Prop := ∀ t, x = .ok t → ∃ u, y = .ok u ∧ t ≤ u

namespace Loosens

theorem refl (x : Except Error Ty) : Loosens x x := fun t h => ⟨t, h, le_rfl⟩

theorem of_le {t u : Ty} (h : t ≤ u) : Loosens (.ok t) (.ok u) := by
  rintro s hs
  cases hs
  exact ⟨u, rfl, h⟩

theorem bind {α : Type} {c d : Except Error α} {x y : α → Except Error Ty} (hc : Extends c d)
    (h : ∀ a, Loosens (x a) (y a)) : Loosens (c >>= x) (d >>= y) := by
  intro t ht
  obtain ⟨a, ha, ht⟩ := bind_eq_ok.mp ht
  obtain ⟨u, hu, hle⟩ := h a t ht
  exact ⟨u, bind_eq_ok.mpr ⟨a, hc a ha, hu⟩, hle⟩

end Loosens

/-! ## The checks of operands -/

namespace Expr

/-- Between the keys of a map anything may stand. -/
theorem expectKeys_set (e : Expr) (operands : List Expr) {i : Nat} (hi : i % 2 = 1) :
    Extends (expectKeys operands) (expectKeys (operands.set i e)) := by
  fun_induction expectKeys operands generalizing i with
  | case1 => exact .refl _
  | case2 key =>
      obtain ⟨j, rfl⟩ : ∃ j, i = j + 1 := ⟨i - 1, by omega⟩
      exact .refl _
  | case3 key value rest ih =>
      rcases i with _ | _ | i
      · cases hi
      · exact .refl _
      · exact (Extends.refl _).bind fun _ => ih (by omega)

variable {e : Expr} (he : e.ty = .any)
include he

theorem expect_of_any {accepted : Ty → Bool} (hany : accepted .any = true) (expected : String)
    (a : Expr) : Extends (a.expect accepted expected) (e.expect accepted expected) := by
  intro u _
  rw [expect, he]
  exact require_eq_ok.mpr hany

theorem expectAll_set {accepted : Ty → Bool} (hany : accepted .any = true) (expected : String)
    (operands : List Expr) (i : Nat) :
    Extends (expectAll accepted expected operands)
      (expectAll accepted expected (operands.set i e)) := by
  induction operands generalizing i with
  | nil => exact .refl _
  | cons a as ih =>
      cases i with
      | zero => exact (expect_of_any he hany expected a).bind fun _ => .refl _
      | succ i => exact (Extends.refl _).bind fun _ => ih i

theorem caseBranches_set (operands : List Expr) (i : Nat) {ss : List Ty}
    (h : caseBranches operands = .ok ss) :
    ∃ ts, caseBranches (operands.set i e) = .ok ts ∧ List.Forall₂ (· ≤ ·) ss ts := by
  have hrefl (ts : List Ty) : List.Forall₂ (· ≤ ·) ts ts := List.forall₂_same.mpr fun _ _ => le_rfl
  fun_induction caseBranches operands generalizing i ss with
  | case1 => exact ⟨ss, h, hrefl ss⟩
  | case2 otherwise =>
      cases h
      cases i with
      | zero => exact ⟨[e.ty], rfl, .cons (he ▸ Ty.le_any _) .nil⟩
      | succ i => exact ⟨[otherwise.ty], rfl, hrefl _⟩
  | case3 condition value rest ih =>
      obtain ⟨u, hcondition, h⟩ := bind_eq_ok.mp h
      obtain ⟨ts, hts, h⟩ := bind_eq_ok.mp h
      cases h
      rcases i with _ | _ | i
      · refine ⟨value.ty :: ts, bind_eq_ok.mpr ⟨u, ?_, bind_eq_ok.mpr ⟨ts, hts, rfl⟩⟩, hrefl _⟩
        exact expect_of_any he rfl _ condition u hcondition
      · refine ⟨e.ty :: ts, bind_eq_ok.mpr ⟨u, hcondition, bind_eq_ok.mpr ⟨ts, hts, rfl⟩⟩, ?_⟩
        exact .cons (he ▸ Ty.le_any _) (hrefl ts)
      · obtain ⟨us, hus, hle⟩ := ih i hts
        refine ⟨value.ty :: us, bind_eq_ok.mpr ⟨u, hcondition, bind_eq_ok.mpr ⟨us, hus, rfl⟩⟩, ?_⟩
        exact .cons le_rfl hle

theorem map_ty_set (operands : List Expr) (i : Nat) :
    (operands.set i e).map ty = (operands.map ty).set i .any := by
  rw [List.map_set, he]

end Expr

theorem Ty.exists_of_isList {t : Ty} (h : t.isList = true) : ∃ s, t = list s := by
  cases t with
  | list s => exact ⟨s, rfl⟩
  | _ => cases h

theorem Ty.common_le_set (types : List Ty) (i : Nat) :
    common types ≤ common (types.set i any) := by
  refine common_mono ?_
  induction types generalizing i with
  | nil => exact .nil
  | cons t types ih =>
      cases i with
      | zero => exact .cons (le_any t) (List.forall₂_same.mpr fun _ _ => le_rfl)
      | succ i => exact .cons le_rfl (ih i)

namespace Operator

/-! ## The rules of operators -/

/-- Whether of the operand at a place nothing counts but its type, and `any` will do. Elsewhere a
literal is wanted, or a flag. -/
def typedAt : Operator → Nat → Bool
  | hasLabels, i | extractProperty, i | setProperty, i | setLabels, i | removeProperty, i
  | removeLabels, i => i != 1
  | patternMatch, i => i != 1 && i != 2
  | adjustEdge, i => i != 0
  | setProperties, i => i != 2
  | makeMap, i => i % 2 == 1
  | _, _ => true

section

variable {op : Operator} {operands : List Expr} {t : Ty}

theorem unary_eq_ok {rule : Expr → Except Error Ty} :
    op.unary operands rule = .ok t ↔ ∃ a, operands = [a] ∧ rule a = .ok t := by
  rcases operands with _ | ⟨a, _ | ⟨b, rest⟩⟩ <;> simp [unary]

theorem binary_eq_ok {rule : Expr → Expr → Except Error Ty} :
    op.binary operands rule = .ok t ↔ ∃ a b, operands = [a, b] ∧ rule a b = .ok t := by
  rcases operands with _ | ⟨a, _ | ⟨b, _ | ⟨c, rest⟩⟩⟩ <;> simp [binary]

theorem ternary_eq_ok {rule : Expr → Expr → Expr → Except Error Ty} :
    op.ternary operands rule = .ok t ↔ ∃ a b c, operands = [a, b, c] ∧ rule a b c = .ok t := by
  rcases operands with _ | ⟨a, _ | ⟨b, _ | ⟨c, _ | ⟨d, rest⟩⟩⟩⟩ <;> simp [ternary]

variable {e : Expr} {i : Nat}

theorem unary_set {rule : Expr → Except Error Ty} (h : ∀ a, Loosens (rule a) (rule e)) :
    Loosens (op.unary operands rule) (op.unary (operands.set i e) rule) := by
  intro t ht
  obtain ⟨a, rfl, ht⟩ := unary_eq_ok.mp ht
  cases i with
  | zero => exact h a t ht
  | succ i => exact ⟨t, ht, le_rfl⟩

theorem binary_set {rule : Expr → Expr → Except Error Ty}
    (hfirst : i = 0 → ∀ a b, Loosens (rule a b) (rule e b))
    (hsecond : i = 1 → ∀ a b, Loosens (rule a b) (rule a e)) :
    Loosens (op.binary operands rule) (op.binary (operands.set i e) rule) := by
  intro t ht
  obtain ⟨a, b, rfl, ht⟩ := binary_eq_ok.mp ht
  rcases i with _ | _ | i
  · exact hfirst rfl a b t ht
  · exact hsecond rfl a b t ht
  · exact ⟨t, ht, le_rfl⟩

theorem ternary_set {rule : Expr → Expr → Expr → Except Error Ty}
    (hfirst : i = 0 → ∀ a b c, Loosens (rule a b c) (rule e b c))
    (hsecond : i = 1 → ∀ a b c, Loosens (rule a b c) (rule a e c))
    (hthird : i = 2 → ∀ a b c, Loosens (rule a b c) (rule a b e)) :
    Loosens (op.ternary operands rule) (op.ternary (operands.set i e) rule) := by
  intro t ht
  obtain ⟨a, b, c, rfl, ht⟩ := ternary_eq_ok.mp ht
  rcases i with _ | _ | _ | i
  · exact hfirst rfl a b c t ht
  · exact hsecond rfl a b c t ht
  · exact hthird rfl a b c t ht
  · exact ⟨t, ht, le_rfl⟩

end

theorem functionType_set (name : String) (types : List Ty) (i : Nat) :
    functionType name types ≤ functionType name (types.set i .any) := by
  have hfirst (view : Option Ty → Ty) (hview : view (some .any) = .any) :
      view types.head? ≤ view (types.set i .any).head? := by
    rcases types with _ | ⟨t, types⟩
    · exact le_rfl
    · cases i with
      | zero =>
          show view (some t) ≤ view (some .any)
          rw [hview]
          exact Ty.le_any _
      | succ i => exact le_rfl
  have hhead := hfirst (·.getD .any) rfl
  have helement := hfirst (fun first => (first.bind Ty.element?).getD .any) rfl
  have hcommon := Ty.common_le_set types i
  unfold functionType
  split
  all_goals first
    | exact le_rfl
    | exact hhead
    | exact hcommon
    | exact helement

/-- **Beside a sum, something dynamic passes wherever only the type counts**, and the call has a
type above the one it had. -/
theorem resultType_set {op : Operator} {e : Expr} {i : Nat} (he : e.ty = .any) (hadd : op ≠ add)
    (hat : op.typedAt i = true) (operands : List Expr) :
    Loosens (op.resultType operands) (op.resultType (operands.set i e)) := by
  have hpass {accepted : Ty → Bool} (hany : accepted .any = true) (expected : String) (a : Expr) :=
    Expr.expect_of_any he hany expected a
  have hty (a : Expr) : a.ty ≤ e.ty := he ▸ Ty.le_any a.ty
  cases op with
  | add => exact absurd rfl hadd
  | eq | ne | lt | le | gt | ge => exact binary_set (fun _ _ _ => .refl _) fun _ _ _ => .refl _
  | and | or | xor =>
      show Loosens (require _ _ >>= _) (require _ _ >>= _)
      rw [arityError, arityError, List.length_set]
      refine .bind (.refl _) fun _ => ?_
      exact .bind (Expr.expectAll_set he rfl _ operands i) fun _ => .refl _
  | not => exact unary_set fun a => .bind (hpass rfl _ a) fun _ => .refl _
  | neg => exact unary_set fun a => .bind (hpass rfl _ a) fun _ => .of_le (hty a)
  | sub | mul | div | mod =>
      refine binary_set (fun _ a b => ?_) fun _ a b => ?_
      · refine .bind (hpass rfl _ a) fun _ => .bind (.refl _) fun _ => .of_le ?_
        rw [he, Ty.any_unify]
        exact Ty.le_any _
      · refine .bind (.refl _) fun _ => .bind (hpass rfl _ b) fun _ => .of_le ?_
        rw [he, Ty.unify_any]
        exact Ty.le_any _
  | pow | like | regex =>
      refine binary_set (fun _ a b => ?_) fun _ a b => ?_
      · exact .bind (hpass rfl _ a) fun _ => .refl _
      · exact .bind (.refl _) fun _ => .bind (hpass rfl _ b) fun _ => .refl _
  | isNull | isNotNull => exact unary_set fun _ => .refl _
  | isIn =>
      exact binary_set (fun _ _ _ => .refl _) fun _ _ b => .bind (hpass rfl _ b) fun _ => .refl _
  | hasLabels | extractProperty =>
      refine binary_set (fun _ a _ => .bind (hpass rfl _ a) fun _ => .refl _) fun hi => ?_
      simp [typedAt, hi] at hat
  | setLabels | removeLabels | removeProperty =>
      refine binary_set (fun _ a _ => ?_) fun hi => ?_
      · exact .bind (hpass rfl _ a) fun _ => .bind (.refl _) fun _ => .of_le (hty a)
      · simp [typedAt, hi] at hat
  | patternMatch =>
      refine ternary_set (fun _ a _ _ => .bind (hpass rfl _ a) fun _ => .refl _) ?_ ?_
      · intro hi
        simp [typedAt, hi] at hat
      · intro hi
        simp [typedAt, hi] at hat
  | adjustEdge =>
      refine ternary_set (fun hi => ?_) (fun _ _ b _ => ?_) fun _ _ _ c => ?_
      · simp [typedAt, hi] at hat
      · exact .bind (.refl _) fun _ => .bind (hpass rfl _ b) fun _ => .refl _
      · refine .bind (.refl _) fun _ => .bind (.refl _) fun _ => .bind (hpass rfl _ c) fun _ => ?_
        exact .refl _
  | setProperty =>
      refine ternary_set (fun _ a _ _ => ?_) (fun hi => ?_) fun _ _ _ _ => .refl _
      · exact .bind (hpass rfl _ a) fun _ => .bind (.refl _) fun _ => .of_le (hty a)
      · simp [typedAt, hi] at hat
  | setProperties =>
      refine ternary_set (fun _ a _ _ => ?_) (fun _ _ b _ => ?_) fun hi => ?_
      · refine .bind (hpass rfl _ a) fun _ => .bind (.refl _) fun _ => ?_
        exact .bind (.refl _) fun _ => .of_le (hty a)
      · exact .bind (.refl _) fun _ => .bind (hpass rfl _ b) fun _ => .refl _
      · simp [typedAt, hi] at hat
  | toList =>
      refine unary_set fun a => .of_le ?_
      have hlist : (if e.ty.isList then e.ty else .list e.ty) = Ty.list .any := by
        rw [he]
        rfl
      rw [hlist]
      split
      · next ha =>
          obtain ⟨s, hs⟩ := Ty.exists_of_isList ha
          rw [hs]
          exact Ty.list_le_list (Ty.le_any s)
      · exact Ty.list_le_list (Ty.le_any a.ty)
  | makeList =>
      rw [resultType, resultType, Expr.map_ty_set he]
      exact .of_le (Ty.list_le_list (Ty.common_le_set _ i))
  | makeMap =>
      show Loosens (require _ _ >>= _) (require _ _ >>= _)
      rw [arityError, arityError, List.length_set]
      refine .bind (.refl _) fun _ => .bind (Expr.expectKeys_set e operands ?_) fun _ => .refl _
      simpa [typedAt] using hat
  | case =>
      show Loosens (require _ _ >>= _) (require _ _ >>= _)
      rw [arityError, arityError, List.length_set]
      refine .bind (.refl _) fun _ => ?_
      intro t ht
      obtain ⟨ss, hss, ht⟩ := bind_eq_ok.mp ht
      cases ht
      obtain ⟨ts, hts, hle⟩ := Expr.caseBranches_set he operands i hss
      exact ⟨.common ts, bind_eq_ok.mpr ⟨ts, hts, rfl⟩, Ty.common_mono hle⟩
  | function name =>
      rw [resultType, resultType, Expr.map_ty_set he]
      exact .of_le (functionType_set name _ i)

/-! ## Sums -/

section

variable {a b e : Expr} {s t : Ty}

/-- The three rules for a sum: one operand is a list; none is, but one is a text and the other may
be one; or both may be numbers. -/
inductive Adds : Ty → Ty → Ty → Prop
  | lists {s t : Ty} : (s.isList = true ∨ t.isList = true) →
      Adds s t (.list ((s.element?.getD s).unify (t.element?.getD t)))
  | texts {s t : Ty} : (s = .string ∨ t = .string) → s.isStringLike = true →
      t.isStringLike = true → Adds s t .string
  | numbers {s t : Ty} : s.isNumericLike = true → t.isNumericLike = true → Adds s t (s.unify t)

theorem not_isList_of_isStringLike (h : s.isStringLike = true) : s.isList = false := by
  cases s with
  | list => cases h
  | _ => rfl

theorem not_isList_of_isNumericLike (h : s.isNumericLike = true) : s.isList = false := by
  cases s with
  | list => cases h
  | _ => rfl

theorem addType_eq_ok : addType a b = .ok t ↔ Adds a.ty b.ty t := by
  unfold addType
  constructor
  · intro h
    split at h
    · next hlist =>
        cases h
        exact .lists (by simpa using hlist)
    · split at h
      · next htext =>
          simp only [Bool.and_eq_true, Bool.or_eq_true, beq_iff_eq] at htext
          cases h
          exact .texts htext.1.1 htext.1.2 htext.2
      · obtain ⟨_, ha, h⟩ := bind_eq_ok.mp h
        obtain ⟨_, hb, h⟩ := bind_eq_ok.mp h
        cases h
        exact .numbers (require_eq_ok.mp ha) (require_eq_ok.mp hb)
  · intro h
    rcases h with hlist | ⟨htext, ha, hb⟩ | ⟨ha, hb⟩
    · rw [if_pos (by simpa using hlist)]
    · rw [if_neg (by simp [not_isList_of_isStringLike ha, not_isList_of_isStringLike hb]),
        if_pos (by simp [htext, ha, hb])]
    · have htext : ¬((a.ty == .string || b.ty == .string) && a.ty.isStringLike &&
          b.ty.isStringLike) = true := by
        simp only [Bool.and_eq_true, Bool.or_eq_true, beq_iff_eq]
        rintro ⟨⟨h | h, -⟩, -⟩
        · rw [h] at ha
          cases ha
        · rw [h] at hb
          cases hb
      rw [if_neg (by simp [not_isList_of_isNumericLike ha, not_isList_of_isNumericLike hb]),
        if_neg htext, Expr.expect, Expr.expect, ha, hb]
      rfl

theorem Adds.symm {r : Ty} (h : Adds s t r) : Adds t s r := by
  cases h with
  | lists h =>
      rw [Ty.unify_comm]
      exact .lists h.symm
  | texts h hs ht => exact .texts h.symm ht hs
  | numbers hs ht =>
      rw [Ty.unify_comm]
      exact .numbers ht hs

/-- What may be a text and is none may be a number. -/
theorem isNumericLike_of_isStringLike (h : t.isStringLike = true) (hne : t ≠ .string) :
    t.isNumericLike = true := by
  cases t with
  | string => exact absurd rfl hne
  | any | null => rfl
  | _ => cases h

theorem adds_any_list (h : t.isList = true) : Adds .any t (.list .any) := by
  have hadds : Adds .any t (.list (Ty.any.unify (t.element?.getD t))) := .lists (.inr h)
  rwa [Ty.any_unify] at hadds

theorem adds_any_number (h : t.isNumericLike = true) : Adds .any t .any := by
  have hadds : Adds .any t (Ty.any.unify t) := .numbers rfl h
  rwa [Ty.any_unify] at hadds

/-- **Something dynamic in the place of an operand.** The sum has a type above the one it had,
unless a list is exchanged and the other operand is a text: then it is a text. If a list is
exchanged, the other operand must be a list, a text, or possibly a number. -/
theorem Adds.exists_any {r : Ty} (h : Adds s t r)
    (hother : s.isList = true → t.isList = true ∨ t.isNumericLike = true ∨ t = .string) :
    ∃ u, Adds .any t u ∧ (r ≤ u ↔ ¬(s.isList = true ∧ t = .string)) ∧
      (s.isList = true → t = .string → u = .string) := by
  by_cases ht : t.isList = true
  · have hstring : t ≠ .string := by
      rintro rfl
      cases ht
    refine ⟨.list .any, adds_any_list ht, ?_, fun _ h => absurd h hstring⟩
    refine iff_of_true ?_ fun h => hstring h.2
    cases h with
    | lists => exact Ty.list_le_list (Ty.le_any _)
    | texts _ _ htext => simp [not_isList_of_isStringLike htext] at ht
    | numbers _ hnumber => simp [not_isList_of_isNumericLike hnumber] at ht
  · by_cases hstring : t = .string
    · subst hstring
      refine ⟨.string, .texts (.inr rfl) rfl rfl, ?_, fun _ _ => rfl⟩
      cases h with
      | lists hlist =>
          have hs : s.isList = true := hlist.resolve_right ht
          refine iff_of_false (fun hle => ?_) fun h => h ⟨hs, rfl⟩
          rcases Ty.list_below_iff.mp hle with h | ⟨_, h, -⟩
          · cases h
          · cases h
      | texts _ hs =>
          refine iff_of_true le_rfl fun h => ?_
          simp [not_isList_of_isStringLike hs] at h
      | numbers _ h => cases h
    · have hnumber : t.isNumericLike = true := by
        cases h with
        | lists hlist =>
            rcases hother (hlist.resolve_right ht) with h | h | h
            · exact absurd h ht
            · exact h
            · exact absurd h hstring
        | texts _ _ htext => exact isNumericLike_of_isStringLike htext hstring
        | numbers _ h => exact h
      refine ⟨.any, adds_any_number hnumber, ?_, fun _ h => absurd h hstring⟩
      exact iff_of_true (Ty.le_any r) fun h => hstring h.2

end

/-! ## Places for literals -/

/-- The rule does not insist on a literal at a place: something else is accepted there. -/
def AdmitsNonLiteral (op : Operator) (i : Nat) : Prop :=
  ∃ operands x t, op.resultType operands = .ok t ∧ operands[i]? = some x ∧ x.literal? = none

theorem literal_of_expectString {x : Expr} {s : String} (h : x.expectString = .ok s) :
    x.literal? ≠ none := by
  intro hx
  have hstring := Expr.expectString_eq_ok.mp h
  rw [Expr.string?, hx] at hstring
  cases hstring

theorem literal_of_expectKeys {operands : List Expr} {u : Unit}
    (h : Expr.expectKeys operands = .ok u) {i : Nat} (hi : i % 2 = 0) {x : Expr}
    (hx : operands[i]? = some x) : x.literal? ≠ none := by
  fun_induction Expr.expectKeys operands generalizing i with
  | case1 => cases hx
  | case2 key =>
      obtain ⟨s, hs, -⟩ := bind_eq_ok.mp h
      cases i with
      | zero =>
          cases hx
          exact literal_of_expectString hs
      | succ i => cases hx
  | case3 key value rest ih =>
      obtain ⟨s, hs, h⟩ := bind_eq_ok.mp h
      rcases i with _ | _ | i
      · cases hx
        exact literal_of_expectString hs
      · cases hi
      · exact ih h (by omega) hx

/-- Where not only the type counts, a literal is wanted; the flag for replacing apart. -/
theorem typedAt_of_admitsNonLiteral {op : Operator} {i : Nat} (h : op.AdmitsNonLiteral i)
    (hflag : op = setProperties → i ≠ 2) : op.typedAt i = true := by
  obtain ⟨operands, x, t, hty, hx, hliteral⟩ := h
  cases op with
  | extractProperty | removeProperty =>
      have hi : i ≠ 1 := by
        rintro rfl
        obtain ⟨a, b, rfl, hty⟩ := binary_eq_ok.mp hty
        obtain ⟨_, -, hty⟩ := bind_eq_ok.mp hty
        obtain ⟨s, hs, -⟩ := bind_eq_ok.mp hty
        cases hx
        exact literal_of_expectString hs hliteral
      simp [typedAt, hi]
  | setProperty =>
      have hi : i ≠ 1 := by
        rintro rfl
        obtain ⟨a, b, c, rfl, hty⟩ := ternary_eq_ok.mp hty
        obtain ⟨_, -, hty⟩ := bind_eq_ok.mp hty
        obtain ⟨s, hs, -⟩ := bind_eq_ok.mp hty
        cases hx
        exact literal_of_expectString hs hliteral
      simp [typedAt, hi]
  | hasLabels | setLabels | removeLabels =>
      have hi : i ≠ 1 := by
        rintro rfl
        obtain ⟨a, b, rfl, hty⟩ := binary_eq_ok.mp hty
        obtain ⟨_, -, hty⟩ := bind_eq_ok.mp hty
        obtain ⟨_, hlabels, -⟩ := bind_eq_ok.mp hty
        cases hx
        simp [Expr.expectStringList, hliteral] at hlabels
      simp [typedAt, hi]
  | patternMatch =>
      obtain ⟨a, b, c, rfl, hty⟩ := ternary_eq_ok.mp hty
      obtain ⟨_, -, hty⟩ := bind_eq_ok.mp hty
      obtain ⟨path, hpath, hty⟩ := bind_eq_ok.mp hty
      obtain ⟨name, hname, -⟩ := bind_eq_ok.mp hty
      rcases i with _ | _ | _ | i
      · rfl
      · cases hx
        simp [Expr.expectPath, hliteral] at hpath
      · cases hx
        exact absurd hliteral (literal_of_expectString hname)
      · cases hx
  | adjustEdge =>
      have hi : i ≠ 0 := by
        rintro rfl
        obtain ⟨a, b, c, rfl, hty⟩ := ternary_eq_ok.mp hty
        obtain ⟨_, hedge, -⟩ := bind_eq_ok.mp hty
        cases hx
        simp [Expr.expectEdge, hliteral] at hedge
      simp [typedAt, hi]
  | setProperties => simp [typedAt, hflag rfl]
  | makeMap =>
      obtain ⟨_, -, hty⟩ := bind_eq_ok.mp hty
      obtain ⟨_, hkeys, -⟩ := bind_eq_ok.mp hty
      have hi : i % 2 ≠ 0 := fun hi => literal_of_expectKeys hkeys hi hx hliteral
      simp only [typedAt, beq_iff_eq]
      omega
  | _ => rfl

/-- **Something dynamic passes for an operand.** In the operands that an operator accepts, let one
be exchanged for something of type `any`, at a place where the rule does not insist on a literal and
which is not the flag of `setProperties`. The operator accepts the new operands too, and the new
type is above the old one. The exception is a list in a sum with a text: the sum was a list and
becomes a text. Of a sum of a list with anything but lists, texts, numbers and dynamic operands
nothing is said. -/
theorem dynamic_operand_accepted {op : Operator} {operands : List Expr} {t : Ty} {i : Nat}
    {x e : Expr} (haccepted : op.resultType operands = .ok t) (hx : operands[i]? = some x)
    (hplace : op.AdmitsNonLiteral i) (hflag : op = setProperties → i ≠ 2) (he : e.ty = .any)
    (hother : op = add → x.ty.isList = true → ∀ y ∈ operands.eraseIdx i,
      y.ty.isList = true ∨ y.ty.isNumericLike = true ∨ y.ty = .string) :
    ∃ u, op.resultType (operands.set i e) = .ok u ∧
      (t.unify u = u ↔
        ¬(op = add ∧ x.ty.isList = true ∧ ∃ y ∈ operands.eraseIdx i, y.ty = .string)) ∧
      (op = add → x.ty.isList = true → (∃ y ∈ operands.eraseIdx i, y.ty = .string) →
        u = .string) := by
  by_cases hadd : op = add
  · subst hadd
    obtain ⟨a, b, rfl, hsum⟩ := binary_eq_ok.mp haccepted
    have hadds := addType_eq_ok.mp hsum
    rcases i with _ | _ | i
    · cases hx
      obtain ⟨u, hu, hle, htext⟩ := hadds.exists_any fun hlist => hother rfl hlist b (by simp)
      refine ⟨u, addType_eq_ok.mpr (he ▸ hu), ?_, ?_⟩
      · rw [Ty.unify_eq_right_iff, hle]
        simp
      · simpa using htext
    · cases hx
      obtain ⟨u, hu, hle, htext⟩ := hadds.symm.exists_any fun hlist => hother rfl hlist a (by simp)
      refine ⟨u, addType_eq_ok.mpr (he ▸ hu.symm), ?_, ?_⟩
      · rw [Ty.unify_eq_right_iff, hle]
        simp
      · simpa using htext
    · cases hx
  · obtain ⟨u, hu, hle⟩ := resultType_set he hadd
      (typedAt_of_admitsNonLiteral hplace hflag) operands t haccepted
    refine ⟨u, hu, iff_of_true (Ty.unify_eq_right_iff.mpr hle) fun h => hadd h.1, ?_⟩
    exact fun h => absurd h hadd

/-- A list of numbers and a number to put behind it; the list may be known later. -/
theorem appended_list_dynamic :
    add.AdmitsNonLiteral 0 ∧
    add.resultType [.ref 0 (.list .int64), .ref 1 .int64] = .ok (.list .int64) ∧
    add.resultType [.ref 0 .any, .ref 1 .int64] = .ok .any ∧
    (Ty.list .int64).unify .any = .any := by
  have hsum : add.resultType [.ref 0 (.list .int64), .ref 1 .int64] = .ok (.list .int64) := rfl
  have hplace : add.AdmitsNonLiteral 0 := ⟨_, _, _, hsum, rfl, rfl⟩
  obtain ⟨u, hu, hle, -⟩ := dynamic_operand_accepted (e := .ref 0 .any) hsum rfl hplace nofun rfl
    fun _ _ y hy => by
      rw [List.mem_singleton.mp hy]
      exact .inr (.inl rfl)
  have hany : u = .any := by
    cases hu
    rfl
  subst hany
  refine ⟨hplace, hsum, hu, hle.mpr ?_⟩
  rintro ⟨-, -, y, hy, hstring⟩
  rw [List.mem_singleton.mp hy] at hstring
  cases hstring

/-- A list makes a sum with a text a list, but something dynamic makes it a text, which is not above
any list. A list can be added to a node, but something dynamic cannot. -/
theorem list_decides_sum :
    add.AdmitsNonLiteral 1 ∧
    (add.resultType [.ofString "a", .ref 0 (.list .string)] = .ok (.list .string) ∧
      add.resultType [.ofString "a", .ref 0 .any] = .ok .string ∧
      (Ty.list .string).unify .string ≠ .string) ∧
    add.resultType [.ref 0 .node, .ref 1 (.list .node)] = .ok (.list .node) ∧
    add.resultType [.ref 0 .node, .ref 1 .any] = .error (.mismatch "numeric" .node) := by
  have hsum : add.resultType [.ofString "a", .ref 0 (.list .string)] = .ok (.list .string) := rfl
  exact ⟨⟨_, _, _, hsum, rfl, rfl⟩, ⟨hsum, rfl, by decide⟩, rfl, rfl⟩

end Operator

end QueryPlan
