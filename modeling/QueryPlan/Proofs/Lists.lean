import Mathlib.Data.List.Forall2

/-!
# Lists side by side

Much of what the library makes comes in lists that belong together member by member. What holds of
the pairs is carried from one list to the other here, by position and by membership.
-/

namespace QueryPlan

variable {α β γ : Type}

/-- A list is what stands before one of its members, that member, and what stands after it. -/
theorem take_append_cons_drop {l : List α} {i : Nat} {a : α} (h : l[i]? = some a) :
    l.take i ++ a :: l.drop (i + 1) = l := by
  obtain ⟨hi, rfl⟩ := List.getElem?_eq_some_iff.mp h
  rw [← List.drop_eq_getElem_cons hi, List.take_append_drop]

/-- What stands in two lists together stands in one of them. -/
theorem getElem?_append_cases {as bs : List α} {i : Nat} {x : α} (h : (as ++ bs)[i]? = some x) :
    as[i]? = some x ∨ ∃ j, i = as.length + j ∧ bs[j]? = some x := by
  by_cases hi : i < as.length
  · rw [List.getElem?_append_left hi] at h
    exact Or.inl h
  · have hle : as.length ≤ i := Nat.le_of_not_lt hi
    rw [List.getElem?_append_right hle] at h
    exact Or.inr ⟨i - as.length, (Nat.add_sub_cancel' hle).symm, h⟩

/-- What stands in a list stands there too when more comes behind. -/
theorem getElem?_append_of_some {as : List α} {i : Nat} {x : α} (h : as[i]? = some x)
    (bs : List α) : (as ++ bs)[i]? = some x := by
  obtain ⟨hi, -⟩ := List.getElem?_eq_some_iff.mp h
  rw [List.getElem?_append_left hi, h]

/-- A function that tells the members of two lists apart tells the lists apart. -/
theorem eq_of_map_eq {f : α → β} {as bs : List α}
    (hf : ∀ a ∈ as, ∀ b ∈ bs, f a = f b → a = b) (h : as.map f = bs.map f) : as = bs := by
  induction as generalizing bs with
  | nil => exact (List.map_eq_nil_iff.mp h.symm).symm
  | cons a as ih =>
      cases bs with
      | nil => cases h
      | cons b bs =>
          obtain ⟨hfirst, hrest⟩ := List.cons.inj h
          have hab := hf a List.mem_cons_self b List.mem_cons_self hfirst
          have hasbs := ih (fun x hx y hy => hf x (List.mem_cons_of_mem a hx) y
            (List.mem_cons_of_mem b hy)) hrest
          rw [hab, hasbs]

/-- The same members, in whatever order and however often. -/
def SameMembers (as bs : List α) : Prop := ∀ a, a ∈ as ↔ a ∈ bs

namespace SameMembers

variable {as bs : List α}

theorem eq_nil_iff (h : SameMembers as bs) : as = [] ↔ bs = [] := by
  rw [List.eq_nil_iff_forall_not_mem, List.eq_nil_iff_forall_not_mem]
  exact forall_congr' fun a => not_congr (h a)

theorem map (f : α → β) (h : SameMembers as bs) : SameMembers (as.map f) (bs.map f) := by
  intro b
  rw [List.mem_map, List.mem_map]
  exact exists_congr fun a => and_congr_left fun _ => h a

end SameMembers

section Forall₂

variable {R : α → β → Prop} {as : List α} {bs : List β}

theorem map_eq_of_forall₂ {f : β → γ} {g : α → γ} (h : List.Forall₂ R as bs)
    (hfg : ∀ a b, R a b → f b = g a) : bs.map f = as.map g := by
  induction h with
  | nil => rfl
  | cons hab _ ih => rw [List.map_cons, List.map_cons, hfg _ _ hab, ih]

theorem exists_getElem?_of_forall₂ (h : List.Forall₂ R as bs) {i : Nat} {a : α}
    (ha : as[i]? = some a) : ∃ b, bs[i]? = some b ∧ R a b := by
  induction h generalizing i with
  | nil => cases ha
  | cons hfirst _ ih =>
      cases i with
      | zero =>
          cases ha
          exact ⟨_, rfl, hfirst⟩
      | succ i => exact ih ha

theorem exists_mem_of_forall₂ (h : List.Forall₂ R as bs) {b : β} (hb : b ∈ bs) :
    ∃ a ∈ as, R a b := by
  obtain ⟨i, hi⟩ := List.mem_iff_getElem?.mp hb
  obtain ⟨a, ha, hab⟩ := exists_getElem?_of_forall₂ h.flip hi
  exact ⟨a, List.mem_of_getElem? ha, hab⟩

/-- Something that fits each member of a list makes a list that fits. -/
theorem exists_forall₂ (h : ∀ a ∈ as, ∃ b, R a b) : ∃ bs, List.Forall₂ R as bs := by
  induction as with
  | nil => exact ⟨[], .nil⟩
  | cons a as ih =>
      obtain ⟨hfirst, hrest⟩ := List.forall_mem_cons.mp h
      obtain ⟨b, hb⟩ := hfirst
      obtain ⟨bs, hbs⟩ := ih hrest
      exact ⟨b :: bs, .cons hb hbs⟩

theorem forall₂_trans {S : β → γ → Prop} {T : α → γ → Prop} {cs : List γ}
    (has : List.Forall₂ R as bs) (hbs : List.Forall₂ S bs cs)
    (h : ∀ a b c, R a b → S b c → T a c) : List.Forall₂ T as cs := by
  induction has generalizing cs with
  | nil =>
      cases hbs
      exact .nil
  | cons hab _ ih =>
      cases hbs with
      | cons hbc hbs => exact .cons (h _ _ _ hab hbc) (ih hbs)

end Forall₂

end QueryPlan
