import QueryPlan.Proofs.Expr.WellTyped
import QueryPlan.Proofs.Value.Equality

/-!
# What the rules for types see of an operand

Of most operands the rule of an operator sees only the type. A few it wants to be literals, and then
it looks into them: texts, lists of texts, edges, and paths, of which it asks what they call their
elements.

`StandsFor b a` says that `b` passes wherever `a` does: it has the same type, and is a literal like
`a` if `a` is one of those. Operands that stand for those of a call give the call the same type, for
every operator (`Operator.resultType_of_standsFor`). The case split over the operators is done once,
here; substitution needs no more than this theorem.
-/

namespace QueryPlan

/-! ## Outcomes that extend others -/

/-- Where the first computation gives a result, the second gives the same one. -/
def Extends {α : Type} (x y : Except Error α) : Prop := ∀ a, x = .ok a → y = .ok a

namespace Extends

variable {α β : Type} {x y : Except Error α}

theorem refl (x : Except Error α) : Extends x x := fun _ h => h

theorem of_error {e : Error} : Extends (.error e) y := fun _ h => nomatch h

theorem bind {f g : α → Except Error β} (h : Extends x y) (hf : ∀ a, Extends (f a) (g a)) :
    Extends (x >>= f) (y >>= g) := by
  intro b hb
  obtain ⟨a, ha, hb⟩ := bind_eq_ok.mp hb
  exact bind_eq_ok.mpr ⟨a, h a ha, hf a b hb⟩

end Extends

namespace Expr

/-- The rules for types accept `b` wherever they accept `a`. -/
structure StandsFor (b a : Expr) : Prop where
  ty : b.ty = a.ty
  string : ∀ s, a.string? = some s → b.string? = some s
  strings : a.literal?.any isStringList = true → b.literal?.any isStringList = true
  path : ∀ types, a.literal?.bind Value.elementTypes? = some types →
    b.literal?.bind Value.elementTypes? = some types
  edge : a.literal?.any Value.isEdge = true → b.literal?.any Value.isEdge = true

theorem StandsFor.refl (a : Expr) : a.StandsFor a :=
  ⟨rfl, fun _ h => h, fun h => h, fun _ h => h, fun h => h⟩

/-- No rule looks into what is not a literal, so that anything of its type will do. -/
theorem standsFor_of_ty {a b : Expr} (ha : a.literal? = none) (hty : b.ty = a.ty) :
    b.StandsFor a := by
  constructor <;> simp [string?, ha, hty]

/-- Equal expressions stand for each other. A number may change the sign of its zero, but no rule
looks at numbers. -/
theorem standsFor_of_equal {a b : Expr} (h : (a == b) = true) : a.StandsFor b ∧ b.StandsFor a := by
  change a.equal b = true at h
  cases a with
  | literal v s =>
      cases b with
      | literal w t =>
          rw [equal, Bool.and_eq_true] at h
          obtain ⟨hvalue, hty⟩ := h
          obtain rfl := eq_of_beq hty
          have hstring := Value.string?_of_equal hvalue
          have hstrings := Value.isStringList_of_equal hvalue
          have hpath := Value.elementTypes?_of_equal hvalue
          have hedge := Value.isEdge_of_equal hvalue
          constructor <;> constructor <;>
            simp [ty, string?, literal?, hstring, hstrings, hpath, hedge]
      | _ => simp [equal] at h
  | ref i s =>
      cases b with
      | ref j t =>
          simp only [equal, Bool.and_eq_true, beq_iff_eq] at h
          exact ⟨standsFor_of_ty rfl h.2, standsFor_of_ty rfl h.2.symm⟩
      | _ => simp [equal] at h
  | apply op as s =>
      cases b with
      | apply oq bs t =>
          simp only [equal, Bool.and_eq_true, beq_iff_eq] at h
          exact ⟨standsFor_of_ty rfl h.2, standsFor_of_ty rfl h.2.symm⟩
      | _ => simp [equal] at h

/-! ## The checks of one operand -/

theorem expectString_eq_ok {e : Expr} {s : String} :
    e.expectString = .ok s ↔ e.string? = some s := by
  unfold expectString
  cases e.string? with
  | none => simp
  | some text => simp

theorem expectEdge_eq_ok {e : Expr} {u : Unit} :
    e.expectEdge = .ok u ↔ e.literal?.any Value.isEdge = true := by
  unfold expectEdge
  cases e.literal? with
  | none => simp
  | some v => cases v <;> simp [Value.isEdge]

theorem expectPath_eq_ok {e : Expr} {types : String → Option Ty} :
    (∃ p, e.expectPath = .ok p ∧ p.elementTy? = types) ↔
      e.literal?.bind Value.elementTypes? = some types := by
  unfold expectPath
  cases e.literal? with
  | none => simp
  | some v => cases v <;> simp [Value.elementTypes?]

section

variable {a b : Expr} (h : b.StandsFor a)
include h

theorem StandsFor.expect_eq (accepted : Ty → Bool) (expected : String) :
    b.expect accepted expected = a.expect accepted expected := by
  rw [expect, expect, h.ty]

theorem StandsFor.expectString : Extends a.expectString b.expectString :=
  fun s hs => expectString_eq_ok.mpr (h.string s (expectString_eq_ok.mp hs))

theorem StandsFor.expectStringList : Extends a.expectStringList b.expectStringList :=
  fun _ hs => require_eq_ok.mpr (h.strings (require_eq_ok.mp hs))

theorem StandsFor.expectEdge : Extends a.expectEdge b.expectEdge :=
  fun _ hu => expectEdge_eq_ok.mpr (h.edge (expectEdge_eq_ok.mp hu))

/-- Where a path is found another is found, and it calls its elements the same. -/
theorem StandsFor.expectPath {p : Path} (hp : a.expectPath = .ok p) :
    ∃ q, b.expectPath = .ok q ∧ q.elementTy? = p.elementTy? :=
  expectPath_eq_ok.mpr (h.path _ (expectPath_eq_ok.mp ⟨p, hp, rfl⟩))

end

/-! ## The checks of all operands -/

section

variable {as bs : List Expr} (h : List.Forall₂ (fun a b => b.StandsFor a) as bs)
include h

theorem expectAll_of_standsFor (accepted : Ty → Bool) (expected : String) :
    expectAll accepted expected bs = expectAll accepted expected as := by
  induction h with
  | nil => rfl
  | cons hab _ ih => rw [expectAll, expectAll, hab.expect_eq, ih]

theorem expectKeys_of_standsFor : Extends (expectKeys as) (expectKeys bs) := by
  fun_induction expectKeys as generalizing bs with
  | case1 =>
      cases h
      exact .refl _
  | case2 key =>
      rcases h with _ | ⟨hkey, _ | _⟩
      exact hkey.expectString.bind fun _ => .refl _
  | case3 key value rest ih =>
      rcases h with _ | ⟨hkey, _ | ⟨_, hrest⟩⟩
      exact hkey.expectString.bind fun _ => ih hrest

theorem caseBranches_of_standsFor : caseBranches bs = caseBranches as := by
  fun_induction caseBranches as generalizing bs with
  | case1 =>
      cases h
      rfl
  | case2 otherwise =>
      rcases h with _ | ⟨hotherwise, _ | _⟩
      rw [caseBranches, hotherwise.ty]
  | case3 condition value rest ih =>
      rcases h with _ | ⟨hcondition, _ | ⟨hvalue, hrest⟩⟩
      rw [caseBranches, hcondition.expect_eq, hvalue.ty, ih hrest]

theorem map_ty_of_standsFor : bs.map Expr.ty = as.map Expr.ty :=
  map_eq_of_forall₂ h fun _ _ hab => hab.ty

end

end Expr

/-! ## The types of calls -/

namespace Operator

section

variable {op : Operator} {as bs : List Expr}
  (h : List.Forall₂ (fun a b => b.StandsFor a) as bs)
include h

theorem unary_of_standsFor {rule : Expr → Except Error Ty}
    (hrule : ∀ {a b}, Expr.StandsFor b a → Extends (rule a) (rule b)) :
    Extends (op.unary as rule) (op.unary bs rule) := by
  rcases h with _ | ⟨ha, _ | _⟩
  · exact .of_error
  · exact hrule ha
  · exact .of_error

theorem binary_of_standsFor {rule : Expr → Expr → Except Error Ty}
    (hrule : ∀ {a b a' b'}, Expr.StandsFor a' a → Expr.StandsFor b' b →
      Extends (rule a b) (rule a' b')) :
    Extends (op.binary as rule) (op.binary bs rule) := by
  rcases h with _ | ⟨ha, _ | ⟨hb, _ | _⟩⟩
  · exact .of_error
  · exact .of_error
  · exact hrule ha hb
  · exact .of_error

theorem ternary_of_standsFor {rule : Expr → Expr → Expr → Except Error Ty}
    (hrule : ∀ {a b c a' b' c'}, Expr.StandsFor a' a → Expr.StandsFor b' b →
      Expr.StandsFor c' c → Extends (rule a b c) (rule a' b' c')) :
    Extends (op.ternary as rule) (op.ternary bs rule) := by
  rcases h with _ | ⟨ha, _ | ⟨hb, _ | ⟨hc, _ | _⟩⟩⟩
  · exact .of_error
  · exact .of_error
  · exact .of_error
  · exact hrule ha hb hc
  · exact .of_error

end

theorem addType_of_standsFor {a b a' b' : Expr} (ha : a'.StandsFor a) (hb : b'.StandsFor b) :
    addType a' b' = addType a b := by
  rw [addType, addType, ha.expect_eq, hb.expect_eq, ha.ty, hb.ty]

/-- The pattern's path may be another, as long as it calls its elements the same. -/
theorem patternMatch_of_standsFor {a b c a' b' c' : Expr} (ha : a'.StandsFor a)
    (hb : b'.StandsFor b) (hc : c'.StandsFor c) :
    Extends (patternMatch.resultType [a, b, c]) (patternMatch.resultType [a', b', c']) := by
  intro ty hty
  obtain ⟨u, hgraph, hty⟩ := bind_eq_ok.mp hty
  obtain ⟨p, hp, hty⟩ := bind_eq_ok.mp hty
  obtain ⟨name, hname, hty⟩ := bind_eq_ok.mp hty
  obtain ⟨q, hq, hsame⟩ := hb.expectPath hp
  refine bind_eq_ok.mpr ⟨u, by rw [ha.expect_eq, hgraph], ?_⟩
  refine bind_eq_ok.mpr ⟨q, hq, ?_⟩
  refine bind_eq_ok.mpr ⟨name, hc.expectString name hname, ?_⟩
  rw [hsame]
  exact hty

/-- **A call over operands that stand for others has the type of the call over those.** -/
theorem resultType_of_standsFor {op : Operator} {as bs : List Expr}
    (h : List.Forall₂ (fun a b => b.StandsFor a) as bs) :
    Extends (op.resultType as) (op.resultType bs) := by
  have hlength : as.length = bs.length := h.length_eq
  -- Two patterns recur: the second operand is a key, or it is a list of labels.
  have hkey {a b a' b' : Expr} (ha : a'.StandsFor a) (hb : b'.StandsFor b) (expected : String)
      (ty : Ty) : Extends
        (do
          a.expect Ty.hasProperties expected
          let _ ← b.expectString
          return ty)
        (do
          a'.expect Ty.hasProperties expected
          let _ ← b'.expectString
          return ty) := by
    rw [ha.expect_eq]
    exact (Extends.refl _).bind fun _ => hb.expectString.bind fun _ => .refl _
  have hlabels {a b a' b' : Expr} (ha : a'.StandsFor a) (hb : b'.StandsFor b) (ty : Ty) : Extends
        (do
          a.expect Ty.isLabelled "node"
          b.expectStringList
          return ty)
        (do
          a'.expect Ty.isLabelled "node"
          b'.expectStringList
          return ty) := by
    rw [ha.expect_eq]
    exact (Extends.refl _).bind fun _ => hb.expectStringList.bind fun _ => .refl _
  cases op with
  | eq | ne | lt | le | gt | ge => exact binary_of_standsFor h fun _ _ => .refl _
  | and | or | xor =>
      show Extends (require _ _ >>= _) (require _ _ >>= _)
      rw [arityError, arityError, hlength, Expr.expectAll_of_standsFor h]
      exact .refl _
  | not =>
      refine unary_of_standsFor h fun ha => ?_
      rw [ha.expect_eq]
      exact .refl _
  | neg =>
      refine unary_of_standsFor h fun ha => ?_
      rw [ha.expect_eq, ha.ty]
      exact .refl _
  | add =>
      refine binary_of_standsFor h fun ha hb => ?_
      rw [addType_of_standsFor ha hb]
      exact .refl _
  | sub | mul | div | mod | pow | like | regex =>
      refine binary_of_standsFor h fun ha hb => ?_
      simp only [ha.expect_eq, hb.expect_eq, ha.ty, hb.ty]
      exact .refl _
  | isNull | isNotNull => exact unary_of_standsFor h fun _ => .refl _
  | isIn =>
      refine binary_of_standsFor h fun _ hb => ?_
      rw [hb.expect_eq]
      exact .refl _
  | hasLabels => exact binary_of_standsFor h fun ha hb => hlabels ha hb _
  | setLabels | removeLabels =>
      refine binary_of_standsFor h fun ha hb => ?_
      rw [ha.ty]
      exact hlabels ha hb _
  | extractProperty => exact binary_of_standsFor h fun ha hb => hkey ha hb _ _
  | removeProperty =>
      refine binary_of_standsFor h fun ha hb => ?_
      rw [ha.ty]
      exact hkey ha hb _ _
  | patternMatch => exact ternary_of_standsFor h patternMatch_of_standsFor
  | adjustEdge =>
      refine ternary_of_standsFor h fun ha hb hc => ?_
      rw [hb.expect_eq, hc.expect_eq]
      exact ha.expectEdge.bind fun _ => .refl _
  | setProperty =>
      refine ternary_of_standsFor h fun ha hb _ => ?_
      rw [ha.ty]
      exact hkey ha hb _ _
  | setProperties =>
      refine ternary_of_standsFor h fun ha hb hc => ?_
      rw [ha.expect_eq, hb.expect_eq, hc.expect_eq, ha.ty]
      exact .refl _
  | toList =>
      refine unary_of_standsFor h fun ha => ?_
      rw [ha.ty]
      exact .refl _
  | makeList =>
      rw [resultType, resultType, Expr.map_ty_of_standsFor h]
      exact .refl _
  | makeMap =>
      show Extends (require _ _ >>= _) (require _ _ >>= _)
      rw [arityError, arityError, hlength]
      exact (Extends.refl _).bind fun _ => (Expr.expectKeys_of_standsFor h).bind fun _ => .refl _
  | case =>
      show Extends (require _ _ >>= _) (require _ _ >>= _)
      rw [arityError, arityError, hlength, Expr.caseBranches_of_standsFor h]
      exact .refl _
  | function name =>
      rw [resultType, resultType, Expr.map_ty_of_standsFor h]
      exact .refl _

end Operator

end QueryPlan
