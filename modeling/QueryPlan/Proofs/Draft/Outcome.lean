import QueryPlan.Draft.Combine
import QueryPlan.Proofs.Outcome

/-!
# Outcomes of steps on a draft

A failed step leaves a draft behind that nobody looks at once the query has failed. The outcome of a
step forgets it: a result with the draft after it, or an error. Outcomes of sequences are sequences
of outcomes.
-/

namespace QueryPlan.Drafting

variable {α β : Type}

/-- The result and the draft after it, or the error. -/
def outcome (x : Drafting α) (d : Draft) : Except Error (α × Draft) :=
  match x d with
  | .ok a d => .ok (a, d)
  | .error e _ => .error e

theorem outcome_eq_ok {x : Drafting α} {d d' : Draft} {a : α} :
    outcome x d = .ok (a, d') ↔ x d = .ok a d' := by
  unfold outcome
  cases x d <;> simp

theorem outcome_eq_error {x : Drafting α} {d : Draft} {e : Error} :
    outcome x d = .error e ↔ ∃ d', x d = .error e d' := by
  unfold outcome
  cases x d <;> simp

@[simp] theorem outcome_pure (a : α) (d : Draft) : outcome (pure a) d = .ok (a, d) := rfl

@[simp] theorem outcome_throw (e : Error) (d : Draft) :
    outcome (throw e : Drafting α) d = .error e := rfl

@[simp] theorem outcome_get (d : Draft) : outcome get d = .ok (d, d) := rfl

@[simp] theorem outcome_set (d d' : Draft) : outcome (set d') d = .ok ((), d') := rfl

@[simp] theorem outcome_modify (f : Draft → Draft) (d : Draft) :
    outcome (modify f) d = .ok ((), f d) := rfl

@[simp] theorem outcome_bind (x : Drafting α) (f : α → Drafting β) (d : Draft) :
    outcome (x >>= f) d = outcome x d >>= fun r => outcome (f r.1) r.2 := by
  change outcome (EStateM.bind x f) d = _
  unfold outcome EStateM.bind
  cases h : x d with
  | ok a d' => simp
  | error e d' => simp

@[simp] theorem outcome_map (f : α → β) (x : Drafting α) (d : Draft) :
    outcome (f <$> x) d = outcome x d >>= fun r => .ok (f r.1, r.2) := by
  change outcome (EStateM.map f x) d = _
  unfold outcome EStateM.map
  cases h : x d with
  | ok a d' => simp
  | error e d' => simp

@[simp] theorem outcome_lift (x : Except Error α) (d : Draft) :
    outcome (lift x) d = x >>= fun a => .ok (a, d) := by
  cases x <;> rfl

/-! ## The steps of a draft -/

@[simp] theorem outcome_push (p : Plan) (d : Draft) :
    outcome (push p) d = .ok ((), { d with stack := p :: d.stack }) := rfl

/-- The plan on top of a stack, or the fault that there is none. -/
def topOf : List Plan → Except Error Plan
  | p :: _ => .ok p
  | [] => .error (.unsupportedInput "clause has no input")

@[simp] theorem outcome_pop (d : Draft) :
    outcome pop d = topOf d.stack >>= fun p => .ok (p, { d with stack := d.stack.tail }) := by
  obtain ⟨catalog, source, stack, pending, nodes, edges, kind, n⟩ := d
  cases stack <;> rfl

@[simp] theorem outcome_add (name : Option String) (e : Expr) (d : Draft) :
    outcome (add name e) d = .ok ((), { d with pending := d.pending ++ [(name, e)] }) := rfl

@[simp] theorem outcome_drain (d : Draft) :
    outcome drain d = .ok (d.pending, { d with pending := [] }) := rfl

@[simp] theorem outcome_clearBound (d : Draft) :
    outcome clearBound d = .ok ((), { d with nodes := [], edges := [] }) := rfl

@[simp] theorem outcome_setKind (kind : QueryKind) (d : Draft) :
    outcome (setKind kind) d = .ok ((), { d with kind := some kind }) := rfl

@[simp] theorem outcome_setKindIfUnset (kind : QueryKind) (d : Draft) :
    outcome (setKindIfUnset kind) d = .ok ((), { d with kind := d.kind.or (some kind) }) := rfl

@[simp] theorem outcome_bindEdge (edge : BoundEdge) (d : Draft) :
    outcome (bindEdge edge) d = .ok ((), { d with edges := d.edges ++ [edge] }) := rfl

end QueryPlan.Drafting
