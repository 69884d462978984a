import Mathlib.Data.List.Nodup
import QueryPlan.Proofs.Expr.WellTyped
import QueryPlan.Proofs.Lists
import QueryPlan.Proofs.Value.Legible

/-!
# Expressions that can be read off

The text of an expression says nothing of types, so it shows the expression only up to the types it
records (`Expr.untyped`). The types of a well-typed expression follow from the schema that it refers
to, and so two well-typed expressions over one schema are equal if their texts are.
-/

namespace QueryPlan

open Text

/-! ## Operators -/

namespace Operator

/-- The name of a named function is plain, and in small letters. -/
def PlainlyNamed : Operator → Prop
  | function name => isPlain name = true ∧ ∀ c ∈ name.toList, c.isUpper = false
  | _ => True

/-- The operators other than named functions. -/
def fixed : List Operator :=
  [eq, ne, lt, le, gt, ge, and, or, xor, not, add, sub, mul, div, mod, pow, neg, isNull, isNotNull,
    isIn, like, regex, hasLabels, extractProperty, patternMatch, adjustEdge, setProperty,
    setProperties, setLabels, removeProperty, removeLabels, toList, makeList, makeMap, case]

theorem mem_fixed_or_function (op : Operator) : op ∈ fixed ∨ ∃ name, op = function name := by
  cases op with
  | function name => exact Or.inr ⟨name, rfl⟩
  | _ => exact Or.inl (by decide)

theorem nodup_texts : (fixed.map text).Nodup := by decide

/-- What the operators other than named functions are written with: a word with capital letters, or
marks. -/
theorem word_or_marks : ∀ op ∈ fixed,
    isPlain op.text = true ∧ op.text.toList.any Char.isUpper = true ∨
      op = lt ∨ op.text ∈ ["=", "<>", "<=", ">", ">=", "+", "-", "*", "/", "%", "^"] := by
  decide

theorem text_inj {op op' : Operator} (h : op.PlainlyNamed) (h' : op'.PlainlyNamed)
    (htext : op.text = op'.text) : op = op' := by
  have hfunction {op : Operator} {name : String} (hop : op ∈ fixed)
      (hname : (function name).PlainlyNamed) : op.text ≠ name := by
    rintro rfl
    have hplain := hname.1
    rcases word_or_marks op hop with ⟨-, hupper⟩ | rfl | hmarks
    · obtain ⟨c, hc, hcapital⟩ := List.any_eq_true.mp hupper
      rw [hname.2 c hc] at hcapital
      cases hcapital
    · cases hplain
    · have hnone : ∀ x ∈ ["=", "<>", "<=", ">", ">=", "+", "-", "*", "/", "%", "^"],
          isPlain x = false := by decide
      rw [hnone _ hmarks] at hplain
      cases hplain
  rcases mem_fixed_or_function op with hop | ⟨name, rfl⟩
  · rcases mem_fixed_or_function op' with hop' | ⟨name', rfl⟩
    · exact List.inj_on_of_nodup_map nodup_texts hop hop' htext
    · exact absurd htext (hfunction hop h')
  · rcases mem_fixed_or_function op' with hop' | ⟨name', rfl⟩
    · exact absurd htext.symm (hfunction hop' h)
    · exact congrArg function htext

theorem shows_text {op : Operator} (h : op.PlainlyNamed) :
    Shows text id PlainlyNamed (Follows (· == '(')) op := by
  refine shows_of_kind (· != '(') ?_ (fun op' h' => text_inj h h') ?_ h
  · intro op' h' c hc
    rcases mem_fixed_or_function op' with hop | ⟨name, rfl⟩
    · have hfixed : ∀ op ∈ fixed, op.text.toList.all (· != '(') = true := by decide
      exact List.all_eq_true.mp (hfixed op' hop) c hc
    · exact bne_of_not_isMark rfl ((isPlain_iff.mp h'.1).2 c hc)
  · exact fun s hs => hs.mono fun c hc => by simpa using hc

end Operator

namespace Expr

/-- All names in an expression are plain: those of functions, and those inside of literals. -/
inductive PlainlyNamed : Expr → Prop
  | literal {v : Value} {ty : Ty} : v.PlainlyNamed → PlainlyNamed (literal v ty)
  | ref (index : Nat) (ty : Ty) : PlainlyNamed (ref index ty)
  | apply {op : Operator} {operands : List Expr} {ty : Ty} : op.PlainlyNamed →
      (∀ o ∈ operands, PlainlyNamed o) → PlainlyNamed (apply op operands ty)

mutual

/-- The expression without the types it records. -/
def untyped : Expr → Expr
  | literal value _ => literal value .any
  | ref index _ => ref index .any
  | apply op operands _ => apply op (untypedAll operands) .any

def untypedAll : List Expr → List Expr
  | [] => []
  | e :: es => e.untyped :: untypedAll es

end

theorem untypedAll_eq_map (es : List Expr) : untypedAll es = es.map untyped := by
  induction es with
  | nil => rfl
  | cons e es ih => rw [untypedAll, ih, List.map_cons]

theorem texts_eq_map (es : List Expr) : texts es = es.map text := by
  induction es with
  | nil => rfl
  | cons e es ih => rw [texts, ih, List.map_cons]

/-- The text of an expression shows it up to types, in front of a comma or a closing bracket. -/
abbrev Shown (e : Expr) : Prop :=
  Shows text untyped (fun e => e.PlainlyNamed ∧ e.WellTyped) (Follows isEnd) e

/-! ## What kind of expression comes -/

/-- What the text of an expression is of. -/
def lead : Expr → Lead
  | literal v _ => v.lead
  | ref _ _ => .ref
  | apply _ _ _ => .call

theorem text_ref (index : Nat) (ty : Ty) : (ref index ty).text = "$" ++ toString index := by
  rw [text]

theorem isPlain_ref (index : Nat) : isPlain ("$" ++ toString index) = true := by
  refine isPlain_iff.mpr ⟨by simp, fun c hc => ?_⟩
  rw [String.toList_append] at hc
  rcases List.mem_append.mp hc with hsign | hdigit
  · rw [List.mem_singleton.mp hsign]
    rfl
  · exact (isPlain_iff.mp (isPlain_toString_nat index)).2 c hdigit

theorem text_apply (op : Operator) (operands : List Expr) (ty : Ty) (s : List Char) :
    (apply op operands ty).text.toList ++ s =
      op.text.toList ++ ("(".toList ++ ((commas (operands.map text)).toList ++
        (")".toList ++ s))) := by
  rw [text, texts_eq_map]
  simp only [String.toList_append, List.append_assoc]

theorem continuesNode_text {e : Expr} (h : e.PlainlyNamed) (s : List Char) :
    continuesNode (afterName (e.text.toList ++ ',' :: s)) = false := by
  cases h with
  | literal hv =>
      rw [text]
      exact Value.continuesNode_text hv s
  | ref index ty =>
      rw [text_ref, afterName_plain (isPlain_ref index)]
      · rfl
      · rfl
  | @apply op operands ty hop _ =>
      rw [text_apply]
      have hword {x : String} (hx : isPlain x = true) (u : List Char) :
          continuesNode (afterName (x.toList ++ ("(".toList ++ u))) = false := by
        rw [afterName_plain hx]
        · rfl
        · rfl
      rcases op.mem_fixed_or_function with hfixed | ⟨name, rfl⟩
      · rcases Operator.word_or_marks op hfixed with ⟨hplain, -⟩ | rfl | hmarks
        · exact hword hplain _
        · rfl
        · generalize "(".toList ++ _ = u
          simp only [List.mem_cons, List.not_mem_nil, or_false] at hmarks
          rcases hmarks with h | h | h | h | h | h | h | h | h | h | h <;> rw [h] <;> rfl
      · exact hword hop.1 _

/-- A comparison has two operands. -/
theorem exists_operands_of_less {operands : List Expr} {ty : Ty}
    (h : Operator.lt.resultType operands = .ok ty) : ∃ a b, operands = [a, b] := by
  dsimp only [Operator.resultType, Operator.binary] at h
  split at h
  · next a b => exact ⟨a, b, rfl⟩
  · cases h

theorem lead_text {e : Expr} {s : List Char} (h : e.PlainlyNamed) (htyped : e.WellTyped)
    (hs : Follows isEnd s) : leadOf (e.text.toList ++ s) = e.lead := by
  cases h with
  | literal hv =>
      rw [text]
      exact Value.lead_text hv hs
  | ref index ty =>
      obtain ⟨c, hc, hlead⟩ := leadOf_plain (isPlain_ref index) (hs.mono isMark_of_isEnd)
      have hsign : c = '$' := by simpa using hc.symm
      rw [text_ref, hlead, leadOfName_of_end hs, if_pos hsign]
      rfl
  | @apply op operands ty hop hoperands =>
      rw [text_apply]
      have hword {x : String} (hx : isPlain x = true) (u : List Char) :
          leadOf (x.toList ++ ("(".toList ++ u)) = .call := by
        have hmark : Follows isMark ("(".toList ++ u) := rfl
        obtain ⟨c, -, hlead⟩ := leadOf_plain hx hmark
        rw [hlead]
        rfl
      rcases op.mem_fixed_or_function with hfixed | ⟨name, rfl⟩
      · rcases Operator.word_or_marks op hfixed with ⟨hplain, -⟩ | rfl | hmarks
        · exact hword hplain _
        · cases htyped with
          | apply _ hty =>
              obtain ⟨a, b, rfl⟩ := exists_operands_of_less hty
              have hnode := continuesNode_text (hoperands a List.mem_cons_self)
                (' ' :: (b.text.toList ++ (")".toList ++ s)))
              have htext : (commas ([a, b].map text)).toList ++ (")".toList ++ s) =
                  a.text.toList ++ ',' :: ' ' :: (b.text.toList ++ (")".toList ++ s)) := by
                simp [commas]
              have hless (u : List Char) : leadOf (Operator.lt.text.toList ++ ("(".toList ++ u)) =
                  leadOfMark '<' ('(' :: u) := rfl
              rw [htext, hless, leadOfMark_less, List.tail_cons, hnode]
              rfl
        · simp only [List.mem_cons, List.not_mem_nil, or_false] at hmarks
          rcases hmarks with h | h | h | h | h | h | h | h | h | h | h <;> rw [h] <;> rfl
      · exact hword hop.1 _

/-! ## Expressions -/

theorem follows_text {e : Expr} {s : List Char} (h : e.PlainlyNamed) (hs : Follows isEnd s) :
    Follows (· != ')') (e.text.toList ++ s) := by
  cases h with
  | literal hv =>
      rw [text]
      exact Value.follows_text rfl hv hs
  | ref index ty =>
      rw [text_ref]
      exact (follows_plain (isPlain_ref index) fun c => bne_of_not_isMark rfl).append s
  | @apply op operands ty hop _ =>
      rw [text_apply]
      refine Follows.append ?_ _
      rcases op.mem_fixed_or_function with hfixed | ⟨name, rfl⟩
      · have hall : ∀ op ∈ Operator.fixed, op.text.toList.head?.any (· != ')') = true := by decide
        exact hall op hfixed
      · exact follows_plain hop.1 fun c => bne_of_not_isMark rfl

theorem shows_operands {operands : List Expr}
    (h : ∀ o ∈ operands, (o.PlainlyNamed ∧ o.WellTyped) ∧ o.Shown) :
    Shows (fun operands => commas (operands.map text)) (List.map untyped)
      (fun operands => ∀ o ∈ operands, o.PlainlyNamed ∧ o.WellTyped) (Follows (· == ')'))
      operands :=
  shows_commas isEnd _ (by decide) (fun _ _ ho hs => follows_text ho.1 hs) h

/-- **Expressions can be read off, up to types.** -/
theorem shows_text {e : Expr} (h : e.PlainlyNamed) (htyped : e.WellTyped) : e.Shown := by
  induction h with
  | @literal v ty hv =>
      rintro e' s t ⟨hplain, htyped'⟩ hs ht heq
      have hlead := lead_text hplain htyped' ht
      rw [← heq, lead_text (.literal hv) htyped hs] at hlead
      cases hplain with
      | literal hw =>
          simp only [text] at heq
          obtain ⟨hsame, heq⟩ := (Value.shows_text hv).read heq hw hs ht
          exact ⟨congrArg (literal · .any) hsame, heq⟩
      | ref => exact absurd hlead v.lead_ne_ref
      | apply => exact absurd hlead v.lead_ne_call
  | ref index ty =>
      rintro e' s t ⟨hplain, htyped'⟩ hs ht heq
      have hlead := lead_text hplain htyped' ht
      rw [← heq, lead_text (.ref index ty) htyped hs] at hlead
      cases hplain with
      | literal hw => exact absurd hlead.symm (Value.lead_ne_ref _)
      | ref index' =>
          rw [text_ref, text_ref] at heq
          obtain ⟨hsame, heq⟩ := ((shows_nat index).behind "$").read heq trivial
            (hs.mono (forall_isEnd _ (by decide))) (ht.mono (forall_isEnd _ (by decide)))
          exact ⟨congrArg (ref · .any) hsame, heq⟩
      | apply => cases hlead
  | @apply op operands ty hop hoperands ih =>
      rintro e' s t ⟨hplain, htyped'⟩ hs ht heq
      have hlead := lead_text hplain htyped' ht
      rw [← heq, lead_text (.apply hop hoperands) htyped hs] at hlead
      cases hplain with
      | literal hw => exact absurd hlead.symm (Value.lead_ne_call _)
      | ref => cases hlead
      | apply hop' hoperands' =>
          cases htyped with
          | apply hwell _ =>
              cases htyped' with
              | apply hwell' _ =>
                  rw [text_apply, text_apply] at heq
                  obtain ⟨hsame, heq⟩ := (Operator.shows_text hop).read heq hop' rfl rfl
                  have hshows := shows_operands fun o ho =>
                    ⟨⟨hoperands o ho, hwell o ho⟩, ih o ho (hwell o ho)⟩
                  obtain ⟨hmap, heq⟩ := hshows.read (List.append_cancel_left heq)
                    (fun o ho => ⟨hoperands' o ho, hwell' o ho⟩) rfl rfl
                  refine ⟨?_, List.append_cancel_left heq⟩
                  rw [untyped, untyped, untypedAll_eq_map, untypedAll_eq_map, hmap]
                  exact congrArg (apply · _ .any) hsame

/-! ## Types -/

/-- Every reference in the expression has the type of the field it refers to. -/
def Fits (schema : Schema) (e : Expr) : Prop :=
  ∀ index ty, (ref index ty).IsPartOf e → ∃ field, schema[index]? = some field ∧ field.ty = ty

theorem Fits.operand {schema : Schema} {op : Operator} {operands : List Expr} {ty : Ty}
    (h : Fits schema (apply op operands ty)) : ∀ o ∈ operands, Fits schema o :=
  fun _ ho index ty hpart => h index ty (.operand hpart ho)

/-- Well-typed expressions over one schema are equal if they are equal up to types. -/
theorem eq_of_untyped_eq {schema : Schema} {e e' : Expr} (he : e.WellTyped) (he' : e'.WellTyped)
    (hfits : e.Fits schema) (hfits' : e'.Fits schema) (h : e.untyped = e'.untyped) : e = e' := by
  induction he generalizing e' with
  | literal v =>
      cases he' with
      | literal w =>
          simp only [untyped, literal.injEq, and_true] at h
          rw [h]
      | ref => simp [untyped] at h
      | apply => simp [untyped] at h
  | ref index ty =>
      cases he' with
      | literal w => simp [untyped] at h
      | ref index' ty' =>
          simp only [untyped, ref.injEq, and_true] at h
          subst h
          obtain ⟨field, hfield, rfl⟩ := hfits index ty (.self _)
          obtain ⟨field', hfield', rfl⟩ := hfits' index ty' (.self _)
          rw [hfield] at hfield'
          cases hfield'
          rfl
      | apply => simp [untyped] at h
  | apply hoperands hty ih =>
      cases he' with
      | literal w => simp [untyped] at h
      | ref => simp [untyped] at h
      | apply hoperands' hty' =>
          simp only [untyped, apply.injEq, and_true, untypedAll_eq_map] at h
          obtain ⟨rfl, hmap⟩ := h
          have hsame := eq_of_map_eq (fun a ha b hb => ih a ha (hoperands' b hb)
            (hfits.operand a ha) (hfits'.operand b hb)) hmap
          subst hsame
          rw [hty] at hty'
          cases hty'
          rfl

end Expr

end QueryPlan
