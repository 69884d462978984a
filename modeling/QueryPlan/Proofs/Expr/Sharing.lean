import QueryPlan.Proofs.Expr.Substitution

/-!
# Substitution shares what does not change

The plain way to substitute offers every part of an expression, outermost first, and makes every
call anew whose operands it has gone through (`substitutePlain`). The substitution of the library
makes a call again only if an operand changed, and leaves out the rule for its type otherwise.

Both come to the same. They fail together, their results are equal, and what the library returns is
the very expression it was given wherever nothing changed, at the top and at every place below it
(`replace_shares`). Equality has to be reflexive for this, so that nothing in the expressions may be
a number that is none. It is coarser than identity all the same: where a zero would be replaced by a
zero of the other sign, the library keeps the one that is there.
-/

namespace QueryPlan.Expr

/-! ## Expressions that equal themselves -/

/-- The numbers in the literals are numbers. -/
def NaNFree (e : Expr) : Prop := ∀ v ty, (literal v ty).IsPartOf e → v.NaNFree

theorem nanFree_literal {v : Value} (h : v.NaNFree) (ty : Ty) : (literal v ty).NaNFree := by
  intro w ty hw
  cases hw
  exact h

theorem nanFree_ref (index : Nat) (ty : Ty) : (ref index ty).NaNFree := by
  intro v ty hv
  cases hv

theorem nanFree_apply {op : Operator} {operands : List Expr} {ty : Ty}
    (h : ∀ o ∈ operands, o.NaNFree) : (apply op operands ty).NaNFree := by
  intro v ty hv
  cases hv with
  | operand hv ho => exact h _ ho v ty hv

theorem NaNFree.operand {e o : Expr} (h : e.NaNFree) (ho : o ∈ e.operands) : o.NaNFree := by
  cases e with
  | apply op operands ty => exact fun v ty hv => h v ty (.operand hv ho)
  | _ => cases ho

theorem equalAll_iff {as bs : List Expr} :
    equalAll as bs = true ↔ List.Forall₂ (fun a b => (a == b) = true) as bs := by
  induction as generalizing bs with
  | nil => cases bs <;> simp [equalAll]
  | cons a as ih =>
      cases bs with
      | nil => simp [equalAll]
      | cons b bs =>
          rw [equalAll, Bool.and_eq_true, List.forall₂_cons, ih]
          rfl

theorem apply_equal_iff {op oq : Operator} {as bs : List Expr} {s t : Ty} :
    (apply op as s == apply oq bs t) = true ↔
      op = oq ∧ List.Forall₂ (fun a b => (a == b) = true) as bs ∧ s = t := by
  show equal _ _ = true ↔ _
  rw [equal, Bool.and_eq_true, Bool.and_eq_true, beq_iff_eq, beq_iff_eq, equalAll_iff, and_assoc]

theorem equal_self {e : Expr} (h : e.NaNFree) : (e == e) = true := by
  induction e using operand_induction with
  | step e ih =>
      cases e with
      | literal v ty =>
          show equal _ _ = true
          simp [equal, Value.equal_self (h v ty (.self _))]
      | ref index ty =>
          show equal _ _ = true
          simp [equal]
      | apply op operands ty =>
          refine apply_equal_iff.mpr ⟨rfl, List.forall₂_same.mpr fun o ho => ?_, rfl⟩
          exact ih o ho (h.operand ho)

/-! ## The plain way -/

mutual

/-- Puts `f e` in the place of each subexpression `e` for which there is one, and makes every other
call anew. -/
def substitutePlain (f : Expr → Option Expr) : Expr → Except Error Expr
  | literal value ty => .ok ((f (literal value ty)).getD (literal value ty))
  | ref index ty => .ok ((f (ref index ty)).getD (ref index ty))
  | apply op operands ty =>
    match f (apply op operands ty) with
    | some r => .ok r
    | none => do
      let results ← substitutePlainAll f operands
      call op results

def substitutePlainAll (f : Expr → Option Expr) : List Expr → Except Error (List Expr)
  | [] => .ok []
  | e :: es => do
    let r ← substitutePlain f e
    return r :: (← substitutePlainAll f es)

end

/-- Puts `replacement` in the place of each subexpression equal to `target`, the plain way. -/
def replacePlain (target replacement : Expr) (e : Expr) : Except Error Expr :=
  substitutePlain (offer target replacement) e

section

variable {f : Expr → Option Expr}

theorem substitutePlain_of_some {e r : Expr} (h : f e = some r) : substitutePlain f e = .ok r := by
  cases e <;> simp [substitutePlain, h]

theorem substitutePlain_call {op : Operator} {operands : List Expr} {ty : Ty}
    (h : f (.apply op operands ty) = none) :
    substitutePlain f (.apply op operands ty) = substitutePlainAll f operands >>= call op := by
  rw [substitutePlain, h]

theorem exists_of_substitutePlainAll {es ps : List Expr} (h : substitutePlainAll f es = .ok ps) :
    ∀ e ∈ es, ∃ p, substitutePlain f e = .ok p := by
  induction es generalizing ps with
  | nil => exact List.forall_mem_nil _
  | cons e es ih =>
      obtain ⟨p, hp, h⟩ := bind_eq_ok.mp h
      obtain ⟨rest, hrest, -⟩ := bind_eq_ok.mp h
      exact List.forall_mem_cons.mpr ⟨⟨p, hp⟩, ih hrest⟩

/-- Operands whose results agree agree as lists. -/
theorem exists_substitutePlainAll {es : List Expr} {cs : List Change}
    (h : List.Forall₂ (fun e c => ∃ p, substitutePlain f e = .ok p ∧ (p == c.result e) = true)
      es cs) :
    ∃ ps, substitutePlainAll f es = .ok ps ∧
      List.Forall₂ (fun p q => (p == q) = true) ps (Change.results es cs) := by
  induction h with
  | nil => exact ⟨[], rfl, .nil⟩
  | cons hfirst _ ih =>
      obtain ⟨p, hp, hequal⟩ := hfirst
      obtain ⟨ps, hps, hequals⟩ := ih
      refine ⟨p :: ps, ?_, .cons hequal hequals⟩
      rw [substitutePlainAll, hp, ok_bind, hps]
      rfl

theorem results_kept (es : List Expr) : Change.results es (es.map fun _ => .kept) = es := by
  induction es with
  | nil => rfl
  | cons e es ih => exact congrArg (e :: ·) ih

/-- The rules for types do not tell equal operands apart. -/
theorem resultType_of_equal {op : Operator} {as bs : List Expr}
    (h : List.Forall₂ (fun a b => (a == b) = true) as bs) {ty : Ty} :
    op.resultType as = .ok ty ↔ op.resultType bs = .ok ty := by
  constructor
  · exact Operator.resultType_of_standsFor (h.imp fun _ _ hab => (standsFor_of_equal hab).2) ty
  · have hflip : List.Forall₂ (fun b a => (a == b) = true) bs as := h.flip
    exact Operator.resultType_of_standsFor (hflip.imp fun _ _ hab => (standsFor_of_equal hab).1) ty

/-- A call made again over equal operands is equal. -/
theorem exists_call_of_equal {op : Operator} {as bs : List Expr} {ty : Ty}
    (h : List.Forall₂ (fun a b => (a == b) = true) as bs) (hty : op.resultType bs = .ok ty) :
    ∃ p, call op as = .ok p ∧ (p == apply op bs ty) = true := by
  refine ⟨apply op as ty, ?_, apply_equal_iff.mpr ⟨rfl, h, rfl⟩⟩
  rw [call, (resultType_of_equal h).mpr hty]
  rfl

/-! ## Both ways agree -/

variable (hf : ∀ s r, f s = some r → r.NaNFree)
include hf

/-- Where sharing succeeds the plain way does, with an equal result. -/
theorem exists_substitutePlain {e : Expr} {c : Change} (he : e.WellTyped) (hnan : e.NaNFree)
    (h : substitute f e = .ok c) :
    ∃ p, substitutePlain f e = .ok p ∧ (p == c.result e) = true := by
  revert he hnan
  refine substitute_induction h ?offered ?untouched ?rebuilt
  case offered =>
    intro e r hoffer _ _
    refine ⟨r, substitutePlain_of_some hoffer, ?_⟩
    unfold replaceBy
    split
    · next hsame => exact hsame
    · exact equal_self (hf e r hoffer)
  case untouched =>
    intro e hoffer ih he hnan
    cases he with
    | literal | ref => exact ⟨_, by rw [substitutePlain, hoffer]; rfl, equal_self hnan⟩
    | @apply op operands ty hoperands hty =>
        -- The plain way makes this call again too, over operands equal to those it has.
        have hchanges : List.Forall₂ (fun o c => ∃ p, substitutePlain f o = .ok p ∧
            (p == Change.result o c) = true) operands (operands.map fun _ => .kept) := by
          refine List.forall₂_map_right_iff.mpr (List.forall₂_same.mpr fun o ho => ?_)
          exact ih o ho (hoperands o ho) (hnan.operand ho)
        obtain ⟨ps, hps, hequal⟩ := exists_substitutePlainAll hchanges
        rw [results_kept] at hequal
        rw [substitutePlain_call hoffer, hps, ok_bind]
        exact exists_call_of_equal hequal hty
  case rebuilt =>
    intro op operands ty changes ty' hoffer ih _ hty' he hnan
    cases he with
    | apply hoperands _ =>
        have hboth := (List.forall₂_and_left _ _).mpr
          ⟨fun o ho => And.intro (hoperands o ho) (hnan.operand ho), ih⟩
        obtain ⟨ps, hps, hequal⟩ := exists_substitutePlainAll
          (hboth.imp fun o c ho => ho.2 ho.1.1 ho.1.2)
        rw [substitutePlain_call hoffer, hps, ok_bind]
        exact exists_call_of_equal hequal hty'

/-- Where the plain way succeeds sharing does. -/
theorem exists_substitute_of_plain {e p : Expr} (he : e.WellTyped) (hnan : e.NaNFree)
    (h : substitutePlain f e = .ok p) : ∃ c, substitute f e = .ok c := by
  induction e using operand_induction generalizing p with
  | step e ih =>
      cases hoffer : f e with
      | some r => exact ⟨_, substitute_of_some hoffer⟩
      | none =>
          cases he with
          | literal | ref => exact ⟨.kept, by rw [substitute, hoffer]⟩
          | @apply op operands ty hoperands _ =>
              rw [substitutePlain_call hoffer] at h
              obtain ⟨ps, hps, hcall⟩ := bind_eq_ok.mp h
              obtain ⟨ty', hty', -⟩ := bind_eq_ok.mp hcall
              have hsome : ∀ o ∈ operands, ∃ c, substitute f o = .ok c := by
                intro o ho
                obtain ⟨q, hq⟩ := exists_of_substitutePlainAll hps o ho
                exact ih o ho (hoperands o ho) (hnan.operand ho) hq
              obtain ⟨changes, hchanges⟩ := exists_forall₂ hsome
              rw [substitute_call hoffer, substituteAll_eq_ok.mpr hchanges, ok_bind]
              split
              · exact ⟨.kept, rfl⟩
              · -- The call over the new operands has a type, as the plain one over equal ones has.
                have hboth := (List.forall₂_and_left _ _).mpr
                  ⟨fun o ho => And.intro (hoperands o ho) (hnan.operand ho), hchanges⟩
                obtain ⟨ps', hps', hequal⟩ := exists_substitutePlainAll
                  (hboth.imp fun o c ho => exists_substitutePlain hf ho.1.1 ho.1.2 ho.2)
                obtain rfl : ps' = ps := Except.ok.inj (hps'.symm.trans hps)
                have hty := (resultType_of_equal hequal).mp hty'
                exact ⟨_, bind_eq_ok.mpr ⟨_, bind_eq_ok.mpr ⟨ty', hty, rfl⟩, rfl⟩⟩

end

/-! ## Places -/

/-- The part at a place, given by the positions of operands on the way to it. -/
def at? : Expr → List Nat → Option Expr
  | e, [] => some e
  | e, i :: place => e.operands[i]?.bind (·.at? place)

/-- What became of the part at a place. Nothing is left of the parts below one that is replaced. -/
def Change.at? : Change → List Nat → Option Change
  | c, [] => some c
  | kept, _ :: _ => some kept
  | replaced _, _ :: _ => none
  | rebuilt _ changes, i :: place => changes[i]?.bind (·.at? place)

/-- The part `s` of `e` at the place is accounted for: at the same place in the result stands what
it became, and that is the very same if and only if it is equal. Or else a part above it was
replaced by what `f` offers for that part. -/
def Change.SharesAt (f : Expr → Option Expr) (c : Change) (e : Expr) (place : List Nat) (s : Expr) :
    Prop :=
  (∃ d, c.at? place = some d ∧ (c.result e).at? place = some (d.result s) ∧
      (d.isKept = true ↔ (d.result s == s) = true)) ∨
    ∃ above below t r, place = above ++ below ∧ below ≠ [] ∧ e.at? above = some t ∧
      f t = some r ∧ c.at? above = some (.replaced r)

section

variable {f : Expr → Option Expr}

theorem Change.at?_kept (place : List Nat) : Change.kept.at? place = some .kept := by
  cases place <;> rfl

theorem NaNFree.at? {e s : Expr} {place : List Nat} (h : e.NaNFree)
    (hs : e.at? place = some s) : s.NaNFree := by
  induction place generalizing e with
  | nil =>
      cases hs
      exact h
  | cons i place ih =>
      obtain ⟨o, ho, hs⟩ := Option.bind_eq_some_iff.mp hs
      exact ih (h.operand (List.mem_of_getElem? ho)) hs

theorem Change.sharesAt_kept {e s : Expr} {place : List Nat} (h : e.NaNFree)
    (hs : e.at? place = some s) : Change.SharesAt f .kept e place s := by
  refine Or.inl ⟨.kept, Change.at?_kept place, hs, ?_⟩
  exact iff_of_true rfl (equal_self (h.at? hs))

theorem Change.getElem?_results {es : List Expr} {cs : List Change} {i : Nat} {e : Expr}
    {c : Change} (he : es[i]? = some e) (hc : cs[i]? = some c) :
    (Change.results es cs)[i]? = some (c.result e) := by
  induction es generalizing cs i with
  | nil => cases he
  | cons first es ih =>
      cases cs with
      | nil => cases hc
      | cons d cs =>
          cases i with
          | zero =>
              cases he
              cases hc
              rfl
          | succ i => exact ih he hc

/-- What is accounted for in an operand is accounted for in the call that is made again. -/
theorem Change.SharesAt.below {op : Operator} {operands : List Expr} {changes : List Change}
    {ty ty' : Ty} {i : Nat} {o : Expr} {d : Change} {place : List Nat} {s : Expr}
    (ho : operands[i]? = some o) (hd : changes[i]? = some d) (h : d.SharesAt f o place s) :
    Change.SharesAt f (.rebuilt (.apply op (Change.results operands changes) ty') changes)
      (.apply op operands ty) (i :: place) s := by
  rcases h with ⟨d', hat, hresult, hiff⟩ | ⟨above, below, t, r, rfl, hbelow, ht, hr, hat⟩
  · refine Or.inl ⟨d', ?_, ?_, hiff⟩
    · rw [Change.at?, hd, Option.bind_some, hat]
    · have hsame := Change.getElem?_results ho hd
      show (Change.results operands changes)[i]?.bind _ = _
      rw [hsame, Option.bind_some, hresult]
  · refine Or.inr ⟨i :: above, below, t, r, rfl, hbelow, ?_, hr, ?_⟩
    · show operands[i]?.bind _ = _
      rw [ho, Option.bind_some, ht]
    · rw [Change.at?, hd, Option.bind_some, hat]

/-- At the top nothing is above. -/
theorem Change.SharesAt.top {c : Change} {e : Expr} (h : c.SharesAt f e [] e) :
    c.isKept = true ↔ (c.result e == e) = true := by
  rcases h with ⟨d, hat, -, hiff⟩ | ⟨above, below, t, r, hplace, hbelow, -⟩
  · cases hat
    exact hiff
  · exact absurd (List.append_eq_nil_iff.mp hplace.symm).2 hbelow

/-- If each operand that comes out equal is kept and all come out equal, then all are kept. -/
theorem all_isKept_of_equal {es : List Expr} {cs : List Change}
    (h : List.Forall₂ (fun e c => (Change.result e c == e) = true → c.isKept = true) es cs)
    (hequal : List.Forall₂ (fun a b => (a == b) = true) (Change.results es cs) es) :
    cs.all Change.isKept = true := by
  induction h with
  | nil => rfl
  | cons hfirst _ ih =>
      rcases hequal with _ | ⟨hsame, hrest⟩
      rw [List.all_cons, hfirst hsame, ih hrest, Bool.and_true]

/-- **Every part is accounted for.** By induction on the substitution; the place is taken apart
along with it. -/
theorem substitute_sharesAt {e : Expr} {c : Change} (hnan : e.NaNFree)
    (h : substitute f e = .ok c) :
    ∀ place s, e.at? place = some s → c.SharesAt f e place s := by
  revert hnan
  refine substitute_induction h ?offered ?untouched ?rebuilt
  case offered =>
    intro e r hoffer hnan place s hs
    unfold replaceBy
    split
    · exact Change.sharesAt_kept hnan hs
    · next hdiffers =>
        cases place with
        | nil =>
            cases hs
            refine Or.inl ⟨.replaced r, rfl, rfl, ?_⟩
            exact iff_of_false Bool.false_ne_true hdiffers
        | cons i place =>
            exact Or.inr ⟨[], i :: place, e, r, rfl, List.cons_ne_nil _ _, rfl, hoffer, rfl⟩
  case untouched =>
    intro e _ _ hnan place s hs
    exact Change.sharesAt_kept hnan hs
  case rebuilt =>
    intro op operands ty changes ty' _ ih hkept _ hnan place s hs
    cases place with
    | nil =>
        cases hs
        refine Or.inl ⟨_, rfl, rfl, iff_of_false Bool.false_ne_true fun hequal => ?_⟩
        have hboth := (List.forall₂_and_left _ _).mpr ⟨fun o ho => hnan.operand ho, ih⟩
        have hall : changes.all Change.isKept = true := by
          refine all_isKept_of_equal (hboth.imp fun o d ho => ?_) (apply_equal_iff.mp hequal).2.1
          exact (ho.2 ho.1 [] o rfl).top.mpr
        rw [hall] at hkept
        cases hkept
    | cons i place =>
        obtain ⟨o, ho, hs⟩ := Option.bind_eq_some_iff.mp hs
        obtain ⟨d, hd, hshares⟩ := exists_getElem?_of_forall₂ ih ho
        have hoperand : o.NaNFree := hnan.operand (List.mem_of_getElem? ho)
        exact (hshares hoperand place s hs).below ho hd

end

/-- **Replacing comes to the same as the plain way, and shares all that does not change.** It fails
exactly if the plain way fails; if it succeeds, the results are equal. The expression given comes
back as the very same if and only if the result equals it. So does every part of it, but for those
that are gone because a part above them equals the target and was replaced. -/
theorem replace_shares (target : Expr) {e replacement : Expr} (he : e.Built) (hnan : e.NaNFree)
    (hreplacement : replacement.NaNFree) :
    ((∃ error, replace target replacement e = .error error) ↔
      ∃ error, replacePlain target replacement e = .error error) ∧
    ∀ c, replace target replacement e = .ok c →
      (∃ p, replacePlain target replacement e = .ok p ∧ (p == c.result e) = true) ∧
      (c.isKept = true ↔ (c.result e == e) = true) ∧
      ∀ place s, e.at? place = some s → c.SharesAt (offer target replacement) e place s := by
  have hf : ∀ s r, offer target replacement s = some r → r.NaNFree := by
    intro s r hr
    obtain ⟨-, rfl⟩ := offer_eq_some.mp hr
    exact hreplacement
  refine ⟨?_, fun c hc => ⟨?_, ?_, ?_⟩⟩
  · constructor
    · rintro ⟨error, herror⟩
      cases hplain : replacePlain target replacement e with
      | error other => exact ⟨other, rfl⟩
      | ok p =>
          obtain ⟨c, hc⟩ := exists_substitute_of_plain hf he.wellTyped hnan hplain
          cases herror.symm.trans hc
    · rintro ⟨error, herror⟩
      cases hshared : replace target replacement e with
      | error other => exact ⟨other, rfl⟩
      | ok c =>
          obtain ⟨p, hp, -⟩ := exists_substitutePlain hf he.wellTyped hnan hshared
          cases herror.symm.trans hp
  · exact exists_substitutePlain hf he.wellTyped hnan hc
  · exact (substitute_sharesAt hnan hc [] e rfl).top
  · exact substitute_sharesAt hnan hc

/-- The product of a field and a negative zero. -/
def signedProduct : Expr :=
  .apply .mul [.ref 0 .float64, .literal (.float (.zero true)) .float64] .float64

/-- The product plus another field. -/
def signedSum : Expr := .apply .add [signedProduct, .ref 1 .float64] .float64

/-- Another field is put in, and the product is left alone. A positive zero is put in the place of
the negative one, and nothing is made anew, although the plain way does put it in. -/
theorem signedSum_shares :
    (∃ c, replace (.ref 1 .float64) (.ref 2 .float64) signedSum = .ok c ∧ c.isKept = false ∧
      c.at? [0] = some .kept ∧
      ∃ p, replacePlain (.ref 1 .float64) (.ref 2 .float64) signedSum = .ok p ∧
        (p == c.result signedSum) = true) ∧
    ∃ p, replacePlain (ofValue (.float (.zero false))) (ofValue (.float (.zero false))) signedSum =
        .ok p ∧
      p.at? [0, 1] = some (ofValue (.float (.zero false))) ∧ (p == signedSum) = true := by
  have hzero (negative : Bool) : (literal (.float (.zero negative)) .float64).NaNFree :=
    nanFree_literal (Value.nanFree_float (by cases negative <;> decide)) _
  have hproduct : call .mul [.ref 0 .float64, ofValue (.float (.zero true))] =
      .ok signedProduct := rfl
  have hsum : call .add [signedProduct, .ref 1 .float64] = .ok signedSum := rfl
  have hbuilt : signedSum.Built := by
    refine .call (List.forall_mem_cons.mpr ⟨?_, List.forall_mem_singleton.mpr (.ref 1 _)⟩) hsum
    refine .call (List.forall_mem_cons.mpr ⟨.ref 0 _, ?_⟩) hproduct
    exact List.forall_mem_singleton.mpr (.ofValue (.float (.zero true)))
  have hnan : signedSum.NaNFree := by
    refine nanFree_apply (List.forall_mem_cons.mpr
      ⟨?_, List.forall_mem_singleton.mpr (nanFree_ref 1 _)⟩)
    exact nanFree_apply (List.forall_mem_cons.mpr
      ⟨nanFree_ref 0 _, List.forall_mem_singleton.mpr (hzero true)⟩)
  constructor
  · have hshares := replace_shares (.ref 1 .float64) hbuilt hnan (nanFree_ref 2 .float64)
    exact ⟨_, rfl, rfl, rfl, (hshares.2 _ rfl).1⟩
  · have hshares := replace_shares (ofValue (.float (.zero false))) hbuilt hnan (hzero false)
    have hkept : replace (ofValue (.float (.zero false))) (literal (.float (.zero false)) .float64)
        signedSum = .ok .kept := by with_unfolding_all rfl
    obtain ⟨p, hp, hequal⟩ := (hshares.2 .kept hkept).1
    refine ⟨p, hp, ?_, hequal⟩
    have hplain : replacePlain (ofValue (.float (.zero false)))
        (literal (.float (.zero false)) .float64) signedSum =
        .ok (.apply .add [.apply .mul [.ref 0 .float64, ofValue (.float (.zero false))] .float64,
          .ref 1 .float64] .float64) := by with_unfolding_all rfl
    cases hp.symm.trans hplain
    rfl

end QueryPlan.Expr
