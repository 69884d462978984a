import QueryPlan.Lowering.Scalar
import QueryPlan.Proofs.Expr.WellTyped
import QueryPlan.Proofs.Lists
import QueryPlan.Proofs.Plan.Node
import QueryPlan.Proofs.Schema

/-!
# Lowered expressions fit their scope

Lowering turns the variables of an expression into references to fields. `Lowered` says what comes
out, for one expression or several: the references are, one by one, to the last fields of the
variables they come from and claim the types of these fields, and each part records its type. The
statement passes through every form of expression, since each of them applies an operator to lowered
parts.

A lowered expression can therefore stand in any node over an input that has the schema
(`Expr.FitsOver`). A variable that is not a field makes lowering fail, wherever it is mentioned.
-/

namespace QueryPlan

/-- The reference is to the last field of the name and claims the type of this field. -/
def Schema.Means (s : Schema) (name : String) (r : Nat × Ty) : Prop :=
  ∃ field, s.IsLast name r.1 field ∧ field.ty = r.2

/-- A name is looked up as the last field that has it. -/
theorem Schema.lookup_eq_ok {s : Schema} {name : String} {x : Expr} :
    s.lookup name = .ok x ↔ ∃ i f, s.IsLast name i f ∧ x = .ref i f.ty := by
  unfold Schema.lookup
  constructor
  · intro h
    split at h
    · next i f hfound =>
        cases h
        exact ⟨i, f, find?_eq_some_iff.mp hfound, rfl⟩
    · cases h
  · rintro ⟨i, f, hlast, rfl⟩
    rw [find?_eq_some_iff.mpr hlast]

/-- What lowering makes over a scope of something that refers to the variables `names`. -/
structure Lowered (scope : Schema) (names : List String) (xs : List Expr) : Prop where
  refs : List.Forall₂ scope.Means names (Expr.refsAll xs)
  typed : ∀ x ∈ xs, x.WellTyped

/-- An expression can stand in a node over the input. -/
structure Expr.FitsOver (x : Expr) (input : Plan) : Prop where
  /-- Among other expressions it makes no difference to the check of references. -/
  refs : ∀ before after : List Expr,
    checkRefs input.schema (before ++ x :: after) = checkRefs input.schema (before ++ after)
  /-- A predicate needs the right type, and no more. -/
  filter : (∃ p, Plan.filter input x = .ok p) ↔ x.ty.isBooleanLike = true
  /-- Among the calls of a match, a pattern call is no reason to fail. -/
  bind : x.operator? = some .patternMatch → ∀ (before after : List Binding) (name : String),
    (∃ p, Plan.matchBindings input (before ++ ⟨name, x⟩ :: after) = .ok p) ↔
      ∃ p, Plan.matchBindings input (before ++ after) = .ok p
  /-- Among other columns it is no reason to fail. -/
  project : ∀ (before after : List Column) (name : Option String),
    (∃ p, Plan.projectColumns input (before ++ ⟨name, x⟩ :: after) = .ok p) ↔
      ∃ p, Plan.projectColumns input (before ++ after) = .ok p
  /-- Among other targets of a write it is no reason to fail. -/
  modify : ∀ (entity : Entity) (write : Write) (before after : List Binding) (name : String),
    (∃ p, Plan.modifyTargets entity input write (before ++ ⟨name, x⟩ :: after) = .ok p) ↔
      ∃ p, Plan.modifyTargets entity input write (before ++ after) = .ok p

namespace Expression

/-- The expressions of which another is immediately made. -/
def parts : Expression → List Expression
  | literal _ | var _ | parameter _ | property _ _ | hasLabels _ _ | countStar => []
  | binary left _ right => [left, right]
  | unary _ operand => [operand]
  | call _ args _ => args
  | list items => items
  | map entries => entries.map Prod.snd
  | case input arms otherwise =>
    input.toList ++ arms.flatMap (fun (condition, value) => [condition, value]) ++ otherwise.toList

/-- The variable occurs somewhere in the expression. -/
inductive Mentions (name : String) : Expression → Prop
  | var : Mentions name (.var name)
  | property (key : String) : Mentions name (.property name key)
  | hasLabels (labels : List String) : Mentions name (.hasLabels name labels)
  | part {e whole : Expression} : e ∈ whole.parts → Mentions name e → Mentions name whole

mutual

/-- The variables whose fields the lowered expression refers to, in the order of its references.
Each arm of a case refers to the input of the case once more. -/
def referents : Expression → List String
  | literal _ | parameter _ | countStar => []
  | var name | property name _ | hasLabels name _ => [name]
  | binary left _ right => left.referents ++ right.referents
  | unary _ operand => operand.referents
  | call _ args _ => allReferents args
  | list items => allReferents items
  | map entries => entryReferents entries
  | case input arms otherwise =>
    armReferents (optionReferents input) arms ++ optionReferents otherwise

def allReferents : List Expression → List String
  | [] => []
  | e :: es => e.referents ++ allReferents es

def entryReferents : List (String × Expression) → List String
  | [] => []
  | (_, e) :: rest => e.referents ++ entryReferents rest

def armReferents (subject : List String) : List (Expression × Expression) → List String
  | [] => []
  | (condition, value) :: rest =>
    (subject ++ condition.referents) ++ (value.referents ++ armReferents subject rest)

def optionReferents : Option Expression → List String
  | none => []
  | some e => e.referents

end

end Expression

/-! ## Lowered parts -/

namespace Lowered

variable {scope : Schema} {names others : List String} {xs ys : List Expr} {x : Expr}

theorem nil : Lowered scope [] [] := ⟨.nil, List.forall_mem_nil _⟩

theorem append (hxs : Lowered scope names xs) (hys : Lowered scope others ys) :
    Lowered scope (names ++ others) (xs ++ ys) := by
  refine ⟨?_, List.forall_mem_append.mpr ⟨hxs.typed, hys.typed⟩⟩
  rw [Expr.refsAll_append]
  exact List.rel_append hxs.refs hys.refs

theorem cons (hx : Lowered scope names [x]) (hys : Lowered scope others ys) :
    Lowered scope (names ++ others) (x :: ys) := hx.append hys

theorem ofValue (v : Value) : Lowered scope [] [.ofValue v] :=
  ⟨.nil, List.forall_mem_singleton.mpr (.literal v)⟩

theorem lookup {name : String} (h : scope.lookup name = .ok x) : Lowered scope [name] [x] := by
  obtain ⟨index, field, hlast, rfl⟩ := Schema.lookup_eq_ok.mp h
  exact ⟨.cons ⟨field, hlast, rfl⟩ .nil, List.forall_mem_singleton.mpr (.ref index field.ty)⟩

/-- A call has the references of its operands. -/
theorem call {op : Operator} (hxs : Lowered scope names xs) (h : Expr.call op xs = .ok x) :
    Lowered scope names [x] := by
  refine ⟨?_, List.forall_mem_singleton.mpr (Expr.wellTyped_call hxs.typed h)⟩
  obtain ⟨ty, -, h⟩ := bind_eq_ok.mp h
  cases h
  rw [Expr.refsAll_singleton, Expr.refs]
  exact hxs.refs

/-- Text is written out, so it refers to nothing. -/
theorem names_of_string? {text : String} (hx : Lowered scope names [x])
    (htext : x.string? = some text) : names = [] := by
  cases x with
  | literal value ty => exact List.forall₂_nil_right_iff.mp hx.refs
  | ref index ty => cases htext
  | apply op operands ty => cases htext

/-- Of a test the subject is left; the part it is tested for becomes a pattern. -/
theorem stringTest {test : Expr.StringTest} {subject part : Expr}
    (hsubject : Lowered scope names [subject]) (hpart : Lowered scope others [part])
    (h : Expr.stringTest test subject part = .ok x) : Lowered scope (names ++ others) [x] := by
  unfold Expr.stringTest at h
  split at h
  · next text htext =>
      rw [hpart.names_of_string? htext]
      exact (hsubject.append (ofValue (.string (test.pattern text)))).call h
  · cases h

theorem binary {op : BinaryOp} {a b : Expr} (ha : Lowered scope names [a])
    (hb : Lowered scope others [b]) (h : op.toExpr a b = .ok x) :
    Lowered scope (names ++ others) [x] := by
  cases op with
  | startsWith | endsWith | contains => exact ha.stringTest hb h
  | _ => exact (ha.append hb).call h

theorem armCondition {subject : Option Expr} {condition : Expr}
    (hsubject : Lowered scope names subject.toList) (hcondition : Lowered scope others [condition])
    (h : QueryPlan.armCondition subject condition = .ok x) :
    Lowered scope (names ++ others) [x] := by
  cases subject with
  | none =>
      cases h
      exact hsubject.append hcondition
  | some subject => exact (hsubject.append hcondition).call h

end Lowered

/-! ## Every form of expression -/

namespace Expression

variable {scope : Schema}

-- The recursion is that of `toExpr`.
mutual

theorem lowered_toExpr : ∀ {e : Expression} {x : Expr}, e.toExpr scope = .ok x →
    Lowered scope e.referents [x]
  | literal l, x, h => by
      cases h
      exact .ofValue l.value
  | var name, x, h => .lookup h
  | parameter name, x, h => by cases h
  | property name key, x, h => by
      obtain ⟨target, htarget, h⟩ := bind_eq_ok.mp h
      exact ((Lowered.lookup htarget).append (.ofValue (.string key))).call h
  | hasLabels name labels, x, h => by
      obtain ⟨target, htarget, h⟩ := bind_eq_ok.mp h
      exact ((Lowered.lookup htarget).append (.ofValue (.list (labels.map .string)))).call h
  | binary left op right, x, h => by
      obtain ⟨a, ha, h⟩ := bind_eq_ok.mp h
      obtain ⟨b, hb, h⟩ := bind_eq_ok.mp h
      exact (lowered_toExpr ha).binary (lowered_toExpr hb) h
  | unary op operand, x, h => by
      obtain ⟨a, ha, h⟩ := bind_eq_ok.mp h
      exact (lowered_toExpr ha).call h
  | call name args distinct, x, h => by
      unfold toExpr at h
      split at h
      · cases h
      · obtain ⟨operands, hoperands, h⟩ := bind_eq_ok.mp h
        exact (lowered_toExprs hoperands).call h
  | countStar, x, h => by cases h
  | list items, x, h => by
      obtain ⟨operands, hoperands, h⟩ := bind_eq_ok.mp h
      exact (lowered_toExprs hoperands).call h
  | map entries, x, h => by
      obtain ⟨operands, hoperands, h⟩ := bind_eq_ok.mp h
      exact (lowered_entryExprs hoperands).call h
  | case input arms otherwise, x, h => by
      obtain ⟨subject, hsubject, h⟩ := bind_eq_ok.mp h
      obtain ⟨operands, hoperands, h⟩ := bind_eq_ok.mp h
      obtain ⟨last, hlast, h⟩ := bind_eq_ok.mp h
      have harms := lowered_armExprs (lowered_optionExpr hsubject) hoperands
      exact (harms.append (lowered_optionExpr hlast)).call h

theorem lowered_toExprs : ∀ {es : List Expression} {xs : List Expr}, toExprs scope es = .ok xs →
    Lowered scope (allReferents es) xs
  | [], xs, h => by
      cases h
      exact .nil
  | e :: es, xs, h => by
      obtain ⟨first, hfirst, h⟩ := bind_eq_ok.mp h
      obtain ⟨rest, hrest, h⟩ := bind_eq_ok.mp h
      cases h
      exact (lowered_toExpr hfirst).cons (lowered_toExprs hrest)

theorem lowered_entryExprs : ∀ {entries : List (String × Expression)} {xs : List Expr},
    entryExprs scope entries = .ok xs → Lowered scope (entryReferents entries) xs
  | [], xs, h => by
      cases h
      exact .nil
  | (key, e) :: rest, xs, h => by
      obtain ⟨first, hfirst, h⟩ := bind_eq_ok.mp h
      obtain ⟨others, hothers, h⟩ := bind_eq_ok.mp h
      cases h
      have hentry := (lowered_toExpr hfirst).cons (lowered_entryExprs hothers)
      exact (Lowered.ofValue (.string key)).cons hentry

theorem lowered_armExprs {subject : Option Expr} {names : List String}
    (hsubject : Lowered scope names subject.toList) :
    ∀ {arms : List (Expression × Expression)} {xs : List Expr},
      armExprs scope subject arms = .ok xs → Lowered scope (armReferents names arms) xs
  | [], xs, h => by
      cases h
      exact .nil
  | (condition, value) :: rest, xs, h => by
      obtain ⟨c, hc, h⟩ := bind_eq_ok.mp h
      obtain ⟨tested, htested, h⟩ := bind_eq_ok.mp h
      obtain ⟨v, hv, h⟩ := bind_eq_ok.mp h
      obtain ⟨others, hothers, h⟩ := bind_eq_ok.mp h
      cases h
      have hcondition := hsubject.armCondition (lowered_toExpr hc) htested
      exact hcondition.cons ((lowered_toExpr hv).cons (lowered_armExprs hsubject hothers))

theorem lowered_optionExpr : ∀ {e : Option Expression} {x : Option Expr},
    optionExpr scope e = .ok x → Lowered scope (optionReferents e) x.toList
  | none, x, h => by
      cases h
      exact .nil
  | some e, x, h => by
      obtain ⟨first, hfirst, h⟩ := bind_eq_ok.mp h
      cases h
      exact lowered_toExpr hfirst

end

/-! ## Variables out of scope -/

theorem exists_toExpr_of_mem : ∀ {es : List Expression} {xs : List Expr},
    toExprs scope es = .ok xs → ∀ e ∈ es, ∃ x, e.toExpr scope = .ok x
  | [], xs, h => List.forall_mem_nil _
  | e :: es, xs, h => by
      obtain ⟨first, hfirst, h⟩ := bind_eq_ok.mp h
      obtain ⟨rest, hrest, -⟩ := bind_eq_ok.mp h
      exact List.forall_mem_cons.mpr ⟨⟨first, hfirst⟩, exists_toExpr_of_mem hrest⟩

theorem exists_toExpr_of_mem_entries : ∀ {entries : List (String × Expression)} {xs : List Expr},
    entryExprs scope entries = .ok xs → ∀ e ∈ entries.map Prod.snd, ∃ x, e.toExpr scope = .ok x
  | [], xs, h => List.forall_mem_nil _
  | (key, e) :: rest, xs, h => by
      obtain ⟨first, hfirst, h⟩ := bind_eq_ok.mp h
      obtain ⟨others, hothers, -⟩ := bind_eq_ok.mp h
      exact List.forall_mem_cons.mpr ⟨⟨first, hfirst⟩, exists_toExpr_of_mem_entries hothers⟩

theorem exists_toExpr_of_mem_arms {subject : Option Expr} :
    ∀ {arms : List (Expression × Expression)} {xs : List Expr},
      armExprs scope subject arms = .ok xs →
      ∀ e ∈ arms.flatMap (fun (condition, value) => [condition, value]),
        ∃ x, e.toExpr scope = .ok x
  | [], xs, h => List.forall_mem_nil _
  | (condition, value) :: rest, xs, h => by
      obtain ⟨c, hc, h⟩ := bind_eq_ok.mp h
      obtain ⟨tested, -, h⟩ := bind_eq_ok.mp h
      obtain ⟨v, hv, h⟩ := bind_eq_ok.mp h
      obtain ⟨others, hothers, -⟩ := bind_eq_ok.mp h
      rw [List.flatMap_cons, List.cons_append, List.singleton_append]
      exact List.forall_mem_cons.mpr ⟨⟨c, hc⟩, List.forall_mem_cons.mpr
        ⟨⟨v, hv⟩, exists_toExpr_of_mem_arms hothers⟩⟩

theorem exists_toExpr_of_mem_option {o : Option Expression} {x : Option Expr}
    (h : optionExpr scope o = .ok x) : ∀ e ∈ o.toList, ∃ y, e.toExpr scope = .ok y := by
  cases o with
  | none => exact List.forall_mem_nil _
  | some e =>
      obtain ⟨first, hfirst, -⟩ := bind_eq_ok.mp h
      exact List.forall_mem_singleton.mpr ⟨first, hfirst⟩

/-- Lowering an expression lowers each part, also one of which nothing is left. -/
theorem exists_toExpr_of_mem_parts {e : Expression} {x : Expr} (h : e.toExpr scope = .ok x) :
    ∀ part ∈ e.parts, ∃ y, part.toExpr scope = .ok y := by
  cases e with
  | literal | var | parameter | property | hasLabels | countStar => exact List.forall_mem_nil _
  | binary left op right =>
      obtain ⟨a, ha, h⟩ := bind_eq_ok.mp h
      obtain ⟨b, hb, -⟩ := bind_eq_ok.mp h
      exact List.forall_mem_cons.mpr ⟨⟨a, ha⟩, List.forall_mem_singleton.mpr ⟨b, hb⟩⟩
  | unary op operand =>
      obtain ⟨a, ha, -⟩ := bind_eq_ok.mp h
      exact List.forall_mem_singleton.mpr ⟨a, ha⟩
  | call name args distinct =>
      unfold toExpr at h
      split at h
      · cases h
      · obtain ⟨operands, hoperands, -⟩ := bind_eq_ok.mp h
        exact exists_toExpr_of_mem hoperands
  | list items =>
      obtain ⟨operands, hoperands, -⟩ := bind_eq_ok.mp h
      exact exists_toExpr_of_mem hoperands
  | map entries =>
      obtain ⟨operands, hoperands, -⟩ := bind_eq_ok.mp h
      exact exists_toExpr_of_mem_entries hoperands
  | case input arms otherwise =>
      obtain ⟨subject, hsubject, h⟩ := bind_eq_ok.mp h
      obtain ⟨operands, hoperands, h⟩ := bind_eq_ok.mp h
      obtain ⟨last, hlast, -⟩ := bind_eq_ok.mp h
      have harms := List.forall_mem_append.mpr
        ⟨exists_toExpr_of_mem_option hsubject, exists_toExpr_of_mem_arms hoperands⟩
      exact List.forall_mem_append.mpr ⟨harms, exists_toExpr_of_mem_option hlast⟩

/-- Every variable in an expression that can be lowered is a field. -/
theorem Mentions.mem_names {name : String} {e : Expression} (hmentions : e.Mentions name) :
    ∀ {x : Expr}, e.toExpr scope = .ok x → name ∈ scope.names := by
  have hlookup : ∀ {target : Expr}, scope.lookup name = .ok target → name ∈ scope.names := by
    intro target htarget
    obtain ⟨i, f, hlast, -⟩ := Schema.lookup_eq_ok.mp htarget
    exact hlast.mem_names
  induction hmentions with
  | var => exact hlookup
  | property key =>
      intro x h
      obtain ⟨target, htarget, -⟩ := bind_eq_ok.mp h
      exact hlookup htarget
  | hasLabels labels =>
      intro x h
      obtain ⟨target, htarget, -⟩ := bind_eq_ok.mp h
      exact hlookup htarget
  | part hpart _ ih =>
      intro x h
      obtain ⟨y, hy⟩ := exists_toExpr_of_mem_parts h _ hpart
      exact ih hy

end Expression

/-! ## Lowered expressions in plans -/

/-- An expression whose references are accepted can stand anywhere. -/
theorem Expr.fitsOver_of_checkAll {x : Expr} {input : Plan}
    (h : checkAll input.schema x.refs = .ok ()) : x.FitsOver input := by
  have hrefs : ∀ before after : List Expr,
      checkRefs input.schema (before ++ x :: after) =
        checkRefs input.schema (before ++ after) := by
    intro before after
    simp only [checkRefs, refsAll_append, refsAll, checkAll_append, h, ok_bind]
  refine ⟨hrefs, ?_, fun hcall before after name => ?_, fun before after name => ?_,
    fun entity write before after name => ?_⟩
  · simp only [Plan.filter_eq_ok, exists_and_left, exists_eq, and_true]
    exact and_iff_left (hrefs [] [])
  · have hcalls : (∀ b ∈ before ++ ⟨name, x⟩ :: after, b.expr.operator? = some .patternMatch) ↔
        ∀ b ∈ before ++ after, b.expr.operator? = some .patternMatch := by
      rw [List.forall_mem_append, List.forall_mem_cons, List.forall_mem_append]
      exact and_congr_right fun _ => and_iff_right hcall
    simp only [Plan.matchBindings_eq_ok, exists_and_left, exists_eq, and_true, List.map_append,
      List.map_cons, hrefs, hcalls]
  · simp only [Plan.projectColumns_eq_ok, exists_and_left, exists_eq, and_true, List.map_append,
      List.map_cons, hrefs]
  · simp only [Plan.modifyTargets_eq_ok, exists_and_left, exists_eq, and_true, List.map_append,
      List.map_cons, hrefs]

namespace Expression

/-- **Lowering is well scoped and well typed.** The references of a lowered expression are, one by
one, to the last fields of its variables and claim the types of these fields. Every part records its
type. Over an input with this schema no check of references minds the expression. An expression that
mentions a variable which is not a field is not lowered. -/
theorem toExpr_wellScoped (scope : Schema) (e : Expression) :
    (∀ x, e.toExpr scope = .ok x →
      List.Forall₂ scope.Means e.referents x.refs ∧
      (∀ index ty, (Expr.ref index ty).IsPartOf x →
        ∃ name ∈ e.referents, scope.Means name (index, ty)) ∧
      (∀ part : Expr, part.IsPartOf x → part.RecordsType) ∧
      ∀ input : Plan, input.schema = scope → x.FitsOver input) ∧
    ((∃ name, e.Mentions name ∧ name ∉ scope.names) → ∃ error, e.toExpr scope = .error error) := by
  constructor
  · intro x h
    obtain ⟨hrefs, htyped⟩ := lowered_toExpr h
    have hx : x.WellTyped := htyped x List.mem_cons_self
    rw [Expr.refsAll_singleton] at hrefs
    refine ⟨hrefs, fun index ty hpart => ?_, fun part hpart => (hx.part hpart).recordsType, ?_⟩
    · exact exists_mem_of_forall₂ hrefs (Expr.mem_refs_of_isPartOf hpart)
    · rintro input rfl
      refine Expr.fitsOver_of_checkAll (checkAll_eq_ok.mpr fun r hr => ?_)
      obtain ⟨name, -, field, hlast, hty⟩ := exists_mem_of_forall₂ hrefs hr
      exact ⟨field, hlast.field, hty⟩
  · rintro ⟨name, hmentions, hunbound⟩
    cases h : e.toExpr scope with
    | ok x => exact absurd (hmentions.mem_names h) hunbound
    | error error => exact ⟨error, rfl⟩

/-- A scope in which `n` comes twice. -/
def shadowed : Schema := [⟨"n", .node⟩, ⟨"name", .string⟩, ⟨"n", .edge⟩]

/-- `CASE n.kind WHEN name STARTS WITH "A" THEN n END`. -/
def choice : Expression :=
  .case (some (.property "n" "kind"))
    [(.binary (.var "name") .startsWith (.literal (.string "A")), .var "n")] none

/-- The last `n` is meant, in the input of the case and in its arm; without it, nothing is. -/
theorem choice_wellScoped :
    (∃ x, choice.toExpr shadowed = .ok x ∧ x.refs = [(2, .edge), (1, .string), (2, .edge)] ∧
      List.Forall₂ shadowed.Means ["n", "name", "n"] x.refs ∧
      ∀ input : Plan, input.schema = shadowed → x.FitsOver input) ∧
    ∃ error, choice.toExpr [⟨"name", .string⟩] = .error error := by
  have hrefs : (choice.toExpr shadowed).toOption.map Expr.refs =
      some [(2, .edge), (1, .string), (2, .edge)] := by decide +kernel
  obtain ⟨x, hx, hrefs⟩ := toOption_map_eq_some.mp hrefs
  obtain ⟨hmeans, -, -, hfits⟩ := (toExpr_wellScoped shadowed choice).1 x hx
  refine ⟨⟨x, hx, hrefs, hmeans, hfits⟩, (toExpr_wellScoped _ choice).2 ⟨"n", ?_, by decide⟩⟩
  exact .part (e := .var "n") (by simp [choice, parts]) .var

end Expression

end QueryPlan
