import QueryPlan.Expr.Typing
import QueryPlan.Proofs.Outcome
import QueryPlan.Proofs.Schema

/-!
# Reading by position

The rules for schemas and for the types of calls are written by cases on lists. They can also be
written by positions: check how many operands there are, then read the one at a certain place. A
read by position may find nothing there. This is an outcome of its own here, apart from the errors
that the library reports.

Each positional form below agrees with the form by cases on lists of every length. So the checks
made before a read suffice for it, and no read is ever out of range.
-/

namespace QueryPlan

/-- How a computation that reads by position stops: it fails, or nothing is where it reads. -/
inductive Stop
  | error (e : Error)
  | outOfRange

section Reading

variable {α β : Type}

/-- The same outcome, with nothing read out of range. -/
def inRange (x : Except Error α) : Except Stop α := x.mapError .error

/-- The element at a position. -/
def readAt (xs : List α) (i : Nat) : Except Stop α :=
  match xs[i]? with
  | some a => .ok a
  | none => .error .outOfRange

/-- The elements before a position, which must not be behind the end. -/
def readTo (xs : List α) (n : Nat) : Except Stop (List α) :=
  if n ≤ xs.length then .ok (xs.take n) else .error .outOfRange

/-- The elements from a position on, which must not be behind the end. -/
def readFrom (xs : List α) (n : Nat) : Except Stop (List α) :=
  if n ≤ xs.length then .ok (xs.drop n) else .error .outOfRange

theorem inRange_ne_outOfRange (x : Except Error α) : inRange x ≠ .error .outOfRange := by
  cases x with
  | ok a => exact nofun
  | error e => exact nofun

/-- Two computations in a row read in range if the second does after every result of the first. -/
theorem bind_inRange {x : Except Error α} {f : α → Except Error β} {g : α → Except Stop β}
    (h : ∀ a, x = .ok a → g a = inRange (f a)) : inRange x >>= g = inRange (x >>= f) := by
  cases x with
  | ok a => exact h a rfl
  | error e => rfl

theorem inRange_bind (x : Except Error α) (f : α → Except Error β) :
    inRange (x >>= f) = inRange x >>= fun a => inRange (f a) :=
  (bind_inRange fun _ _ => rfl).symm

theorem readAt_of_getElem? {xs : List α} {i : Nat} {a : α} (h : xs[i]? = some a) :
    readAt xs i = .ok a := by
  unfold readAt
  rw [h]

theorem readAt_cons_succ (x : α) (xs : List α) (i : Nat) :
    readAt (x :: xs) (i + 1) = readAt xs i := by
  unfold readAt
  rw [List.getElem?_cons_succ]

theorem readTo_of_le {xs : List α} {n : Nat} (h : n ≤ xs.length) :
    readTo xs n = .ok (xs.take n) :=
  if_pos h

theorem readTo_append {xs : List α} {n : Nat} (h : xs.length = n) (ys : List α) :
    readTo (xs ++ ys) n = .ok xs := by
  subst h
  rw [readTo_of_le (xs.length_append ▸ Nat.le_add_right _ _), List.take_left]

theorem readFrom_append {xs : List α} {n : Nat} (h : xs.length = n) (ys : List α) :
    readFrom (xs ++ ys) n = .ok ys := by
  subst h
  rw [readFrom, if_pos (xs.length_append ▸ Nat.le_add_right _ _), List.drop_left]

end Reading

/-! ## Schemas -/

namespace Schema

/-- The last field with a name: its position is searched for, then the field is read there. -/
def findAt (s : Schema) (name : String) : Except Stop (Option (Nat × Field)) :=
  match s.indexOf? name with
  | none => .ok none
  | some i => do return some (i, ← readAt s i)

/-- Whether the schema is one field of the given type, which is read at the first position. -/
def isSingleAt (s : Schema) (ty : Ty) : Except Stop Bool :=
  if s.length = 1 then do return decide ((← readAt s 0).ty = ty) else .ok false

theorem findAt_eq (s : Schema) (name : String) : s.findAt name = .ok (s.find? name) := by
  unfold findAt
  rw [indexOf?_eq_map_find?]
  cases hfound : s.find? name with
  | none => rfl
  | some found =>
      obtain ⟨i, field⟩ := found
      change (do return some (i, ← readAt s i)) = _
      rw [readAt_of_getElem? (find?_eq_some_iff.mp hfound).field]
      rfl

theorem isSingleAt_eq (s : Schema) (ty : Ty) : s.isSingleAt ty = .ok (s.isSingle ty) := by
  match s with
  | [] => rfl
  | [f] => rfl
  | _ :: _ :: _ => rfl

end Schema

/-! ## Calls -/

/-- The type at a position must be accepted. -/
def expectAt (types : List Ty) (i : Nat) (accepted : Ty → Bool) (expected : String) :
    Except Stop Unit := do
  let t ← readAt types i
  inRange (require (accepted t) (.mismatch expected t))

namespace Expr

/-- The branches of a case from the pair at place `i` on, `n` pairs in all: of each pair the
condition is read and checked, then the value is read. -/
def pairsAt (types : List Ty) (i : Nat) : Nat → Except Stop (List Ty)
  | 0 => .ok []
  | n + 1 => do
    expectAt types (2 * i) Ty.isBooleanLike "bool"
    let value ← readAt types (2 * i + 1)
    return value :: (← pairsAt types (i + 1) n)

/-- The types of the branches of a case: of as many pairs as there are, and of the operand that is
left over. -/
def branchesAt (types : List Ty) : Except Stop (List Ty) := do
  let branches ← pairsAt types 0 (types.length / 2)
  if types.length % 2 = 1 then return branches ++ [← readAt types (types.length - 1)]
  else return branches

/-- A pair in front moves the others by one place. -/
theorem pairsAt_cons_cons (condition value : Ty) (types : List Ty) (i n : Nat) :
    pairsAt (condition :: value :: types) (i + 1) n = pairsAt types i n := by
  induction n generalizing i with
  | zero => rfl
  | succ n ih =>
      have hcondition : readAt (condition :: value :: types) (2 * (i + 1)) =
          readAt types (2 * i) := by
        rw [Nat.mul_add, readAt_cons_succ, readAt_cons_succ]
      have hvalue : readAt (condition :: value :: types) (2 * (i + 1) + 1) =
          readAt types (2 * i + 1) := by
        rw [Nat.mul_add, Nat.add_right_comm, readAt_cons_succ, readAt_cons_succ]
      rw [pairsAt, pairsAt, ih, hvalue, expectAt, expectAt, hcondition]

/-- A pair in front adds a branch; its condition is checked first. -/
theorem branchesAt_cons_cons (condition value : Ty) (types : List Ty) :
    branchesAt (condition :: value :: types) = (do
      inRange (require condition.isBooleanLike (.mismatch "bool" condition))
      return value :: (← branchesAt types)) := by
  have hpairs : (condition :: value :: types).length / 2 = types.length / 2 + 1 := by
    rw [List.length_cons, List.length_cons]
    omega
  have hodd : (condition :: value :: types).length % 2 = types.length % 2 := by
    rw [List.length_cons, List.length_cons]
    omega
  have hlast (h : types.length % 2 = 1) : readAt (condition :: value :: types)
      ((condition :: value :: types).length - 1) = readAt types (types.length - 1) := by
    obtain ⟨n, hn⟩ : ∃ n, types.length = n + 1 := ⟨types.length - 1, by omega⟩
    rw [List.length_cons, List.length_cons, hn]
    exact (readAt_cons_succ _ _ _).trans (readAt_cons_succ _ _ _)
  unfold branchesAt
  rw [hpairs, hodd, pairsAt, pairsAt_cons_cons]
  change (inRange (require condition.isBooleanLike (.mismatch "bool" condition)) >>= _) >>= _ = _
  cases inRange (require condition.isBooleanLike (.mismatch "bool" condition)) with
  | error e => rfl
  | ok _ =>
      cases pairsAt types 0 (types.length / 2) with
      | error e => rfl
      | ok branches =>
          change (if types.length % 2 = 1 then _ else _) =
            (if types.length % 2 = 1 then _ else _) >>= _
          by_cases h : types.length % 2 = 1
          · rw [if_pos h, if_pos h, hlast h]
            cases readAt types (types.length - 1) with
            | error e => rfl
            | ok last => rfl
          · rw [if_neg h, if_neg h]
            rfl

theorem branchesAt_eq (operands : List Expr) :
    branchesAt (operands.map Expr.ty) = inRange (caseBranches operands) := by
  induction operands using caseBranches.induct with
  | case1 => rfl
  | case2 otherwise =>
      rw [List.map_singleton, branchesAt, List.length_singleton]
      rfl
  | case3 condition value rest ih =>
      rw [caseBranches, inRange_bind]
      simp only [inRange_bind]
      rw [← ih]
      exact branchesAt_cons_cons condition.ty value.ty (rest.map Expr.ty)

end Expr

namespace Operator

/-- There must be a certain number of operands. -/
def expectCount (op : Operator) (operands : List Expr) (n : Nat) : Except Stop Unit :=
  inRange (require (operands.length = n) (op.arityError (toString n) operands))

/-- The type of the operator applied to the operands, which are read by position once they have been
counted. -/
def resultTypeAt (op : Operator) (operands : List Expr) : Except Stop Ty :=
  let types := operands.map Expr.ty
  match op with
  | eq | ne | lt | le | gt | ge => do
    op.expectCount operands 2
    return .bool
  | and | or | xor => do
    inRange (require (2 ≤ operands.length) (op.arityError "at least 2" operands))
    inRange (Expr.expectAll Ty.isBooleanLike "bool" operands)
    return .bool
  | not => do
    op.expectCount operands 1
    expectAt types 0 Ty.isBooleanLike "bool"
    return .bool
  | add => do
    op.expectCount operands 2
    inRange (addType (← readAt operands 0) (← readAt operands 1))
  | sub | mul | div | mod => do
    op.expectCount operands 2
    expectAt types 0 Ty.isNumericLike "numeric"
    expectAt types 1 Ty.isNumericLike "numeric"
    return (← readAt types 0).unify (← readAt types 1)
  | pow => do
    op.expectCount operands 2
    expectAt types 0 Ty.isNumericLike "numeric"
    expectAt types 1 Ty.isNumericLike "numeric"
    return .float64
  | neg => do
    op.expectCount operands 1
    expectAt types 0 Ty.isNumericLike "numeric"
    readAt types 0
  | isNull | isNotNull => do
    op.expectCount operands 1
    return .bool
  | isIn => do
    op.expectCount operands 2
    expectAt types 1 (fun t => t.isList || t.isDynamic) "list"
    return .bool
  | like | regex => do
    op.expectCount operands 2
    expectAt types 0 Ty.isStringLike "string"
    expectAt types 1 Ty.isStringLike "string"
    return .bool
  | hasLabels => do
    op.expectCount operands 2
    expectAt types 0 Ty.isLabelled "node"
    inRange (← readAt operands 1).expectStringList
    return .bool
  | extractProperty => do
    op.expectCount operands 2
    expectAt types 0 Ty.hasProperties "node, edge or map"
    let _ ← inRange (← readAt operands 1).expectString
    return .any
  | patternMatch => do
    op.expectCount operands 3
    expectAt types 0 (fun t => t == .graph || t == .any) "graph"
    let path ← inRange (← readAt operands 1).expectPath
    let name ← inRange (← readAt operands 2).expectString
    inRange <| match path.elementTy? name with
      | some ty => return ty
      | none => throw (.unboundVariable name)
  | adjustEdge => do
    op.expectCount operands 3
    inRange (← readAt operands 0).expectEdge
    let ends ← readFrom operands 1
    inRange (Expr.expectAll (fun t => t == .node || t == .any) "node" ends)
    return .edge
  | setProperty => do
    op.expectCount operands 3
    expectAt types 0 Ty.hasProperties "node or edge"
    let _ ← inRange (← readAt operands 1).expectString
    readAt types 0
  | setProperties => do
    op.expectCount operands 3
    expectAt types 0 Ty.hasProperties "node or edge"
    expectAt types 1 Ty.hasProperties "map"
    expectAt types 2 (· == .bool) "bool"
    readAt types 0
  | setLabels | removeLabels => do
    op.expectCount operands 2
    expectAt types 0 Ty.isLabelled "node"
    inRange (← readAt operands 1).expectStringList
    readAt types 0
  | removeProperty => do
    op.expectCount operands 2
    expectAt types 0 Ty.hasProperties "node or edge"
    let _ ← inRange (← readAt operands 1).expectString
    readAt types 0
  | toList => do
    op.expectCount operands 1
    let t ← readAt types 0
    return if t.isList then t else .list t
  | makeList => return .list (.common types)
  | makeMap => do
    inRange (require (operands.length % 2 = 0) (op.arityError "an even number of" operands))
    inRange (Expr.expectKeys operands)
    return .map
  | case => do
    inRange (require (2 ≤ operands.length) (op.arityError "at least 2" operands))
    return .common (← Expr.branchesAt types)
  | function name => return functionType name types

section Counted

variable {op : Operator} {operands : List Expr} {x : Except Stop Ty}

/-- Counting one operand leaves the rule for one. -/
theorem expectCount_one {rule : Expr → Except Error Ty}
    (h : ∀ a, operands = [a] → x = inRange (rule a)) :
    (do op.expectCount operands 1; x) = inRange (op.unary operands rule) := by
  match operands with
  | [] => rfl
  | [a] => exact h a rfl
  | _ :: _ :: _ => rfl

theorem expectCount_two {rule : Expr → Expr → Except Error Ty}
    (h : ∀ a b, operands = [a, b] → x = inRange (rule a b)) :
    (do op.expectCount operands 2; x) = inRange (op.binary operands rule) := by
  match operands with
  | [] => rfl
  | [_] => rfl
  | [a, b] => exact h a b rfl
  | _ :: _ :: _ :: _ => rfl

theorem expectCount_three {rule : Expr → Expr → Expr → Except Error Ty}
    (h : ∀ a b c, operands = [a, b, c] → x = inRange (rule a b c)) :
    (do op.expectCount operands 3; x) = inRange (op.ternary operands rule) := by
  match operands with
  | [] => rfl
  | [_] => rfl
  | [_, _] => rfl
  | [a, b, c] => exact h a b c rfl
  | _ :: _ :: _ :: _ :: _ => rfl

end Counted

/-- **Operands are read in range**, whatever the operator is and however many there are. -/
theorem resultTypeAt_eq (op : Operator) (operands : List Expr) :
    op.resultTypeAt operands = inRange (op.resultType operands) := by
  cases op with
  | eq | ne | lt | le | gt | ge =>
      refine expectCount_two fun a b h => ?_
      rfl
  | isNull | isNotNull =>
      refine expectCount_one fun a h => ?_
      rfl
  | toList =>
      refine expectCount_one fun a h => ?_
      subst h
      rfl
  | add =>
      refine expectCount_two fun a b h => ?_
      subst h
      rfl
  | not | neg =>
      refine expectCount_one fun a h => ?_
      subst h
      simp only [inRange_bind]
      rfl
  | sub | mul | div | mod | pow | isIn | like | regex | hasLabels | extractProperty
  | setLabels | removeLabels | removeProperty =>
      refine expectCount_two fun a b h => ?_
      subst h
      simp only [inRange_bind]
      rfl
  | patternMatch | setProperty | setProperties =>
      refine expectCount_three fun a b c h => ?_
      subst h
      simp only [inRange_bind]
      rfl
  | adjustEdge =>
      refine expectCount_three fun a b c h => ?_
      subst h
      -- The operands from the second on are the two ends.
      change (do inRange a.expectEdge; inRange (Expr.expectAll _ "node" [b, c]); return Ty.edge) = _
      simp only [Expr.expectAll, inRange_bind, bind_assoc]
      rfl
  | and | or | xor | makeMap =>
      rw [resultType]
      simp only [inRange_bind]
      rfl
  | makeList => rfl
  | function name => rfl
  | case =>
      rw [resultType]
      simp only [inRange_bind, ← Expr.branchesAt_eq]
      rfl

end Operator

end QueryPlan
