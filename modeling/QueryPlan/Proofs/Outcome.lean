import QueryPlan.Plan.Build

/-!
# Outcomes

A computation of the library gives a result or an error. The errors it may give when it is used as
the library uses it are the *ordinary* ones: neither the report of a broken promise inside the
library (`internal`) nor an error that already carries the tag of a clause.

`Yields x Q` says what both outcomes of `x` are like: a result satisfies `Q`, an error is ordinary.
The statement passes through sequencing, so that one lemma per function suffices.
-/

namespace QueryPlan

variable {α β : Type}

/-! ## Results of sequences -/

@[simp] theorem throw_eq_error (e : Error) : (throw e : Except Error α) = .error e := rfl

@[simp] theorem ok_bind (a : α) (f : α → Except Error β) : (Except.ok a >>= f) = f a := rfl

@[simp] theorem error_bind (e : Error) (f : α → Except Error β) :
    (Except.error e >>= f) = .error e := rfl

/-- A sequence succeeds when its first part does and the second does on its result. -/
theorem bind_eq_ok {x : Except Error α} {f : α → Except Error β} {b : β} :
    (x >>= f) = .ok b ↔ ∃ a, x = .ok a ∧ f a = .ok b := by
  cases x with
  | error e => simp
  | ok a => simp

@[simp] theorem require_eq_ok {c : Bool} {e : Error} {u : Unit} :
    require c e = .ok u ↔ c = true := by
  cases c <;> simp [require]

theorem pairUp_eq_ok {as : List α} {bs : List β} {e : Error} {pairs : List (α × β)} :
    pairUp as bs e = .ok pairs ↔ as.length = bs.length ∧ as.zip bs = pairs := by
  unfold pairUp
  split <;> simp_all

/-- What is seen of an outcome is seen of a result. -/
theorem toOption_map_eq_some {x : Except Error α} {f : α → β} {b : β} :
    x.toOption.map f = some b ↔ ∃ a, x = .ok a ∧ f a = b := by
  cases x with
  | error e => simp [Except.toOption]
  | ok a => simp [Except.toOption]

/-! ## Ordinary errors -/

/-- Neither internal nor tagged with a clause. -/
def Error.IsOrdinary : Error → Prop
  | .clause _ _ _ | .internal _ => False
  | _ => True

/-- A result satisfies `Q`, an error is ordinary. -/
def Yields (x : Except Error α) (Q : α → Prop) : Prop :=
  match x with
  | .ok a => Q a
  | .error e => e.IsOrdinary

/-- The computation fails only with ordinary errors. -/
abbrev FailsOrdinarily (x : Except Error α) : Prop := Yields x fun _ => True

namespace Yields

variable {x : Except Error α} {Q : α → Prop}

theorem result {a : α} (h : Yields x Q) (hx : x = .ok a) : Q a := by
  subst hx
  exact h

theorem error {e : Error} (h : Yields x Q) (hx : x = .error e) : e.IsOrdinary := by
  subst hx
  exact h

theorem ok {a : α} (h : Q a) : Yields (.ok a) Q := h

theorem fail {e : Error} (h : e.IsOrdinary) : Yields (.error e) Q := h

theorem mono {R : α → Prop} (h : Yields x Q) (himp : ∀ a, Q a → R a) : Yields x R := by
  cases x with
  | ok a => exact himp a h
  | error e => exact h

theorem bind {f : α → Except Error β} {R : β → Prop} (h : Yields x Q)
    (hf : ∀ a, x = .ok a → Q a → Yields (f a) R) : Yields (x >>= f) R := by
  cases x with
  | ok a => exact hf a rfl h
  | error e => exact h

/-- What is known of a result may come from elsewhere than from the failures. -/
theorem of_ok {R : α → Prop} (h : Yields x Q) (hR : ∀ a, x = .ok a → R a) : Yields x R := by
  cases x with
  | ok a => exact hR a rfl
  | error e => exact h

end Yields

theorem yields_require {c : Bool} {e : Error} (h : e.IsOrdinary) :
    Yields (require c e) fun _ => c = true := by
  cases c with
  | true => exact Yields.ok rfl
  | false => exact Yields.fail h

theorem yields_pairUp {as : List α} {bs : List β} {e : Error} (h : e.IsOrdinary) :
    FailsOrdinarily (pairUp as bs e) := by
  unfold pairUp
  split
  · exact Yields.ok trivial
  · exact Yields.fail h

end QueryPlan
