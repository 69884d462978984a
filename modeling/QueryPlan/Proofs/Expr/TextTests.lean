import Mathlib.Data.List.Infix
import QueryPlan.Expr.Typing
import QueryPlan.Proofs.Outcome

/-!
# Tests of texts by patterns

`STARTS WITH`, `ENDS WITH` and `CONTAINS` are carried out as a `like` over a pattern made from the
part that is looked for. `Text.Like` says how a pattern is read. The part goes into the pattern as
it is, so a percent sign in it is read as a gap too: a text matches exactly if the test holds of it
for some text that the part, taken as a pattern, matches (`Expr.like_pattern_iff`). The part itself
is among these, and it is the only one exactly if it has no percent sign. No other pattern would do
better, for none has a percent sign in all the texts that it matches.
-/

namespace QueryPlan

namespace Text

/-- How a pattern is read: a percent sign stands for any characters, every other character for
itself, and the text has to be used up. -/
inductive Like : List Char → List Char → Prop
  | done : Like [] []
  | gap {pattern text : List Char} (skipped : List Char) :
      Like pattern text → Like ('%' :: pattern) (skipped ++ text)
  | same {c : Char} {pattern text : List Char} :
      c ≠ '%' → Like pattern text → Like (c :: pattern) (c :: text)

/-- Reads a pattern, trying at a percent sign every way to go on. -/
def isLike : List Char → List Char → Bool
  | [], text => text.isEmpty
  | c :: pattern, text =>
    if c = '%' then text.tails.any (isLike pattern)
    else
      match text with
      | [] => false
      | d :: rest => c == d && isLike pattern rest

variable {pattern text : List Char}

theorem like_nil_iff : Like [] text ↔ text = [] := by
  constructor
  · intro h
    cases h
    rfl
  · rintro rfl
    exact .done

theorem like_gap_iff : Like ('%' :: pattern) text ↔ ∃ rest, rest <:+ text ∧ Like pattern rest := by
  constructor
  · intro h
    cases h with
    | gap skipped hrest => exact ⟨_, List.suffix_append skipped _, hrest⟩
    | same hc _ => exact absurd rfl hc
  · rintro ⟨rest, ⟨skipped, rfl⟩, hrest⟩
    exact .gap skipped hrest

theorem like_same_iff {c : Char} (hc : c ≠ '%') :
    Like (c :: pattern) text ↔ ∃ rest, text = c :: rest ∧ Like pattern rest := by
  constructor
  · intro h
    cases h with
    | gap _ _ => exact absurd rfl hc
    | same _ hrest => exact ⟨_, rfl, hrest⟩
  · rintro ⟨rest, rfl, hrest⟩
    exact .same hc hrest

theorem isLike_iff : isLike pattern text = true ↔ Like pattern text := by
  induction pattern generalizing text with
  | nil => rw [isLike, List.isEmpty_iff, like_nil_iff]
  | cons c pattern ih =>
      by_cases hc : c = '%'
      · subst hc
        simp only [isLike, if_true, List.any_eq_true, List.mem_tails, ih, like_gap_iff]
      · rw [like_same_iff hc]
        cases text with
        | nil => simp [isLike, hc]
        | cons d rest =>
            simp only [isLike, if_neg hc, Bool.and_eq_true, beq_iff_eq, ih, List.cons.injEq]
            constructor
            · rintro ⟨rfl, hrest⟩
              exact ⟨rest, ⟨rfl, rfl⟩, hrest⟩
            · rintro ⟨_, ⟨rfl, rfl⟩, hrest⟩
              exact ⟨rfl, hrest⟩

instance (pattern text : List Char) : Decidable (Like pattern text) :=
  decidable_of_iff (isLike pattern text = true) isLike_iff

/-- Two patterns in a row are matched one after the other. -/
theorem like_append_iff {first second : List Char} : Like (first ++ second) text ↔
    ∃ front back, text = front ++ back ∧ Like first front ∧ Like second back := by
  constructor
  · intro h
    induction first generalizing text with
    | nil => exact ⟨[], text, rfl, .done, h⟩
    | cons c first ih =>
        cases h with
        | gap skipped hrest =>
            obtain ⟨front, back, rfl, hfront, hback⟩ := ih hrest
            have hsplit := (List.append_assoc skipped front back).symm
            exact ⟨skipped ++ front, back, hsplit, .gap skipped hfront, hback⟩
        | same hc hrest =>
            obtain ⟨front, back, rfl, hfront, hback⟩ := ih hrest
            exact ⟨c :: front, back, rfl, .same hc hfront, hback⟩
  · rintro ⟨front, back, rfl, hfront, hback⟩
    induction hfront with
    | done => exact hback
    | gap skipped _ ih =>
        rw [List.append_assoc]
        exact .gap skipped ih
    | same hc _ ih => exact .same hc ih

/-- A percent sign alone is matched by every text. -/
theorem like_gap (text : List Char) : Like ['%'] text :=
  like_gap_iff.mpr ⟨[], List.nil_suffix, .done⟩

theorem like_self (pattern : List Char) : Like pattern pattern := by
  induction pattern with
  | nil => exact .done
  | cons c pattern ih =>
      by_cases hc : c = '%'
      · subst hc
        exact .gap ['%'] ih
      · exact .same hc ih

/-- Gaps may be empty: a pattern is matched by what is left of it without percent signs. -/
theorem like_filter (pattern : List Char) : Like pattern (pattern.filter (· ≠ '%')) := by
  induction pattern with
  | nil => exact .done
  | cons c pattern ih =>
      by_cases hc : c = '%'
      · subst hc
        simpa using Like.gap [] ih
      · simpa [hc] using Like.same hc ih

/-- A pattern without percent signs is matched by itself only. -/
theorem like_plain_iff (h : '%' ∉ pattern) : Like pattern text ↔ text = pattern := by
  constructor
  · intro hlike
    induction hlike with
    | done => rfl
    | gap _ _ _ => exact absurd List.mem_cons_self h
    | same _ _ ih => rw [ih fun hmem => h (List.mem_cons_of_mem _ hmem)]
  · rintro rfl
    exact like_self text

end Text

namespace Expr

/-- What a test asks of a text: the part stands at its start, at its end, or anywhere in it. -/
def StringTest.Holds (test : StringTest) (part text : List Char) : Prop :=
  match test with
  | startsWith => part <+: text
  | endsWith => part <:+ text
  | contains => part <:+: text

variable {test : StringTest} {part text : List Char}

instance (test : StringTest) (part text : List Char) : Decidable (test.Holds part text) :=
  match test with
  | .startsWith => inferInstanceAs (Decidable (part <+: text))
  | .endsWith => inferInstanceAs (Decidable (part <:+ text))
  | .contains => inferInstanceAs (Decidable (part <:+: text))

theorem StringTest.Holds.subset (h : test.Holds part text) : part ⊆ text := by
  cases test with
  | startsWith => exact List.IsPrefix.subset h
  | endsWith => exact List.IsSuffix.subset h
  | contains => exact List.IsInfix.subset h

/-- **What the pattern of a test matches**: the texts of which the test holds, for some text that
the part matches as a pattern. -/
theorem like_pattern_iff (test : StringTest) (part : String) (text : List Char) :
    Text.Like (test.pattern part).toList text ↔
      ∃ found, Text.Like part.toList found ∧ test.Holds found text := by
  have hgap : "%".toList = ['%'] := rfl
  cases test with
  | startsWith =>
      simp only [StringTest.pattern, String.toList_append, hgap, Text.like_append_iff]
      constructor
      · rintro ⟨found, after, rfl, hfound, -⟩
        exact ⟨found, hfound, List.prefix_append found after⟩
      · rintro ⟨found, hfound, after, rfl⟩
        exact ⟨found, after, rfl, hfound, Text.like_gap after⟩
  | endsWith =>
      simp only [StringTest.pattern, String.toList_append, hgap, Text.like_append_iff]
      constructor
      · rintro ⟨before, found, rfl, -, hfound⟩
        exact ⟨found, hfound, List.suffix_append before found⟩
      · rintro ⟨found, hfound, before, rfl⟩
        exact ⟨before, found, rfl, Text.like_gap before, hfound⟩
  | contains =>
      simp only [StringTest.pattern, String.toList_append, hgap, Text.like_append_iff]
      constructor
      · rintro ⟨_, after, rfl, ⟨before, found, rfl, -, hfound⟩, -⟩
        exact ⟨found, hfound, before, after, rfl⟩
      · rintro ⟨found, hfound, before, after, rfl⟩
        exact ⟨before ++ found, after, rfl, ⟨before, found, rfl, Text.like_gap before, hfound⟩,
          Text.like_gap after⟩

/-- **No pattern tests for a percent sign.** Every pattern is matched by a text without one. -/
theorem not_mem_of_like_iff_holds {pattern : List Char}
    (h : ∀ text, Text.Like pattern text ↔ test.Holds part text) : '%' ∉ part := by
  intro hmem
  have hholds := (h _).mp (Text.like_filter pattern)
  have hkept := hholds.subset hmem
  simp at hkept

/-- The call that carries out a test. -/
theorem stringTest_eq_ok {subject operand : Expr} {part : String}
    (hsubject : subject.ty.isStringLike = true) (hpart : operand.string? = some part) :
    stringTest test subject operand =
      .ok (.apply .like [subject, .ofString (test.pattern part)] .bool) := by
  have hresult : Operator.like.resultType [subject, .ofString (test.pattern part)] = .ok .bool := by
    have hleft : subject.expect Ty.isStringLike "string" = .ok () := require_eq_ok.mpr hsubject
    have hright : (Expr.ofString (test.pattern part)).expect Ty.isStringLike "string" = .ok () :=
      rfl
    simp only [Operator.resultType, Operator.binary, hleft, hright, ok_bind]
    rfl
  simp only [stringTest, hpart, call, hresult, ok_bind]
  rfl

/-- **A test keeps its meaning exactly if its part has no percent sign.** A test of a text for a
literal part becomes a `like`. Its pattern is matched by every text of which the test holds. It is
matched by no others if and only if the part has no percent sign. For a part that has one, there is
no pattern at all that is matched by just these texts. -/
theorem test_keeps_meaning_iff (test : StringTest) (subject operand : Expr) (part : String)
    (hsubject : subject.ty.isStringLike = true) (hpart : operand.string? = some part) :
    ∃ pattern : String,
      stringTest test subject operand = .ok (.apply .like [subject, .ofString pattern] .bool) ∧
      (∀ text : String, test.Holds part.toList text.toList →
        Text.Like pattern.toList text.toList) ∧
      ((∀ text : String, Text.Like pattern.toList text.toList ↔
        test.Holds part.toList text.toList) ↔ '%' ∉ part.toList) ∧
      ((∃ other : String, ∀ text : String, Text.Like other.toList text.toList ↔
        test.Holds part.toList text.toList) ↔ '%' ∉ part.toList) := by
  -- Statements about all strings are statements about all lists of characters.
  have hlists : ∀ {P : List Char → Prop}, (∀ text : String, P text.toList) → ∀ text, P text := by
    intro P h text
    have htext := h (String.ofList text)
    rwa [String.toList_ofList] at htext
  have hplain : '%' ∉ part.toList → ∀ text : String,
      Text.Like (test.pattern part).toList text.toList ↔ test.Holds part.toList text.toList := by
    intro hfree text
    simp only [like_pattern_iff, Text.like_plain_iff hfree, exists_eq_left]
  refine ⟨test.pattern part, stringTest_eq_ok hsubject hpart, ?_, ?_, ?_⟩
  · intro text hholds
    exact (like_pattern_iff test part _).mpr ⟨part.toList, Text.like_self _, hholds⟩
  · exact ⟨fun h => not_mem_of_like_iff_holds (hlists h), hplain⟩
  · constructor
    · rintro ⟨other, hother⟩
      exact not_mem_of_like_iff_holds (hlists hother)
    · intro hfree
      exact ⟨test.pattern part, hplain hfree⟩

/-- A part with the other sign that patterns of this kind often know, an underscore, is looked for
as it is. -/
theorem underscore_tested_as_written :
    ∃ pattern : String,
      stringTest .contains (.ref 0 .string) (.ofString "a_b") =
        .ok (.apply .like [.ref 0 .string, .ofString pattern] .bool) ∧
      ∀ text : String, Text.Like pattern.toList text.toList ↔
        StringTest.contains.Holds "a_b".toList text.toList := by
  obtain ⟨pattern, hcall, -, hiff, -⟩ :=
    test_keeps_meaning_iff .contains (.ref 0 .string) (.ofString "a_b") "a_b" rfl rfl
  exact ⟨pattern, hcall, hiff.mpr (by decide)⟩

/-- **A percent sign in the part is read as a gap.** What is looked for at the start is `50%`, and
the pattern is matched by `500 km`. -/
theorem percent_read_as_gap :
    ∃ pattern : String,
      stringTest .startsWith (.ref 0 .string) (.ofString "50%") =
        .ok (.apply .like [.ref 0 .string, .ofString pattern] .bool) ∧
      Text.Like pattern.toList "500 km".toList ∧
      ¬StringTest.startsWith.Holds "50%".toList "500 km".toList :=
  ⟨"50%%", rfl, by decide, by decide⟩

end Expr

end QueryPlan
