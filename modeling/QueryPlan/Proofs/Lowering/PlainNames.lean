import QueryPlan.Proofs.Lowering.Create
import QueryPlan.Proofs.Lowering.Paths
import QueryPlan.Proofs.Plan.Payloads

/-!
# Queries with plain names

The names of variables, labels, relationship types, functions and properties stand in texts as they
are. `Query.isPlain` tests whether those that a query writes are plain, whether the columns it asks
for have titles, and whether it does without floating-point numbers. Nothing is asked of texts that
are quoted wherever they are written: those in literals, the keys of properties that are looked up,
the labels that are tested for.

What the expressions and the patterns of such a query become can be read off.
-/

namespace QueryPlan

open Text

/-! ## Plain queries -/

/-- Whether a literal is other than a floating-point number. -/
def Literal.isPlain : Literal → Bool
  | float _ => false
  | _ => true

namespace Expression

mutual

/-- Whether the names of functions and of entries are plain, and so are the literals. -/
def isPlain : Expression → Bool
  | literal l => l.isPlain
  | var _ | parameter _ | property _ _ | hasLabels _ _ | countStar => true
  | binary left _ right => left.isPlain && right.isPlain
  | unary _ operand => operand.isPlain
  | call name args _ => Text.isPlain name && allPlain args
  | list items => allPlain items
  | map entries => allEntriesPlain entries
  | case input arms otherwise => optionPlain input && allArmsPlain arms && optionPlain otherwise

def allPlain : List Expression → Bool
  | [] => true
  | e :: es => e.isPlain && allPlain es

def allEntriesPlain : List (String × Expression) → Bool
  | [] => true
  | (key, e) :: rest => Text.isPlain key && e.isPlain && allEntriesPlain rest

def allArmsPlain : List (Expression × Expression) → Bool
  | [] => true
  | (condition, value) :: rest => condition.isPlain && value.isPlain && allArmsPlain rest

def optionPlain : Option Expression → Bool
  | none => true
  | some e => e.isPlain

end

end Expression

def NodePattern.isPlain (p : NodePattern) : Bool :=
  p.var.all Text.isPlain && p.labels.all Text.isPlain && Expression.allEntriesPlain p.properties

def EdgePattern.isPlain (p : EdgePattern) : Bool :=
  p.var.all Text.isPlain && p.types.all Text.isPlain &&
    Expression.allEntriesPlain p.properties && p.target.isPlain

def Pattern.isPlain (p : Pattern) : Bool :=
  p.var.all Text.isPlain && p.source.isPlain && p.edges.all EdgePattern.isPlain

/-- Whether the columns, those that are only sorted by among them, have titles. -/
def Projection.isPlain (p : Projection) : Bool :=
  p.items.all (fun item => item.expression.isPlain && isTitle item.name) &&
    p.orderBy.all fun item => item.expression.isPlain && isTitle item.expression.sortName

def SetItem.isPlain (item : SetItem) : Bool :=
  Text.isPlain item.var &&
    match item with
    | property _ _ value | replace _ value | merge _ value => value.isPlain
    | labels _ _ => true

namespace Clause

/-- Whether the names and the literals of a clause are plain; nothing is asked of a clause that is
never carried out. -/
def isPlain : Clause → Bool
  | matching c => c.patterns.all Pattern.isPlain && Expression.optionPlain c.condition
  | passing c => c.projection.isPlain && Expression.optionPlain c.condition
  | returning c => c.projection.isPlain
  | creating c => c.patterns.all Pattern.isPlain
  | setting c => c.items.all SetItem.isPlain
  | removing c => c.items.all fun item => Text.isPlain item.var
  | deleting c => c.vars.all Text.isPlain
  | unwinding c => c.expression.isPlain && Text.isPlain c.asName
  | calling c => c.yieldItems.all Text.isPlain && (!c.yieldAll || c.yieldItems.isEmpty)
  | onGraph _ | merging _ | repeating _ _ _ _ | loading _ => true

end Clause

def Query.isPlain (q : Query) : Bool := q.parts.all fun part => part.clauses.all Clause.isPlain

/-! ## Names that are made up -/

namespace Text

theorem isPlain_append {s t : String} (hs : isPlain s = true) (ht : isPlain t = true) :
    isPlain (s ++ t) = true := by
  obtain ⟨hne, hs⟩ := isPlain_iff.mp hs
  obtain ⟨-, ht⟩ := isPlain_iff.mp ht
  rw [isPlain_iff, String.toList_append]
  exact ⟨List.append_ne_nil_of_left_ne_nil hne _, List.forall_mem_append.mpr ⟨hs, ht⟩⟩

theorem isTitle_of_isPlain {s : String} (h : isPlain s = true) : isTitle s = true := by
  have hends (c : Char) (hc : endsTitle c = true) : isMark c = true := by
    simp only [endsTitle, Bool.or_eq_true, beq_iff_eq] at hc
    rcases hc with (rfl | rfl) | rfl <;> rfl
  refine List.all_eq_true.mpr fun c hc => ?_
  have hplain := (isPlain_iff.mp h).2 c hc
  cases hc : endsTitle c with
  | false => rfl
  | true => exact absurd (hends c hc) (by simp [hplain])

/-- Small letters are no marks, and all else stays as it is. -/
theorem isMark_toLower {c : Char} (h : isMark c = false) :
    isMark c.toLower = false ∧ c.toLower.isUpper = false := by
  cases hupper : c.isUpper with
  | false =>
      have hsame : c.toLower = c := dif_neg (of_decide_eq_false hupper)
      rw [hsame]
      exact ⟨h, hupper⟩
  | true =>
      obtain ⟨hleast, hmost⟩ : 65 ≤ c.val ∧ c.val ≤ 90 := of_decide_eq_true hupper
      have hletter : 65 ≤ c.toNat ∧ c.toNat ≤ 90 :=
        ⟨UInt32.le_iff_toNat_le.mp hleast, UInt32.le_iff_toNat_le.mp hmost⟩
      have hall : ∀ n ∈ List.range' 65 26, isMark (Char.ofNat n).toLower = false ∧
          (Char.ofNat n).toLower.isUpper = false := by decide
      rw [← Char.ofNat_toNat c]
      exact hall _ (List.mem_range'_1.mpr (by omega))

theorem isPlain_lower {s : String} (h : isPlain s = true) :
    isPlain (lower s) = true ∧ ∀ c ∈ (lower s).toList, c.isUpper = false := by
  obtain ⟨hne, hplain⟩ := isPlain_iff.mp h
  have hchars : (lower s).toList = s.toList.map Char.toLower := by simp [lower]
  rw [isPlain_iff, hchars]
  refine ⟨⟨by simpa using hne, List.forall_mem_map.mpr fun c hc => ?_⟩,
    List.forall_mem_map.mpr fun c hc => ?_⟩
  · exact (isMark_toLower (hplain c hc)).1
  · exact (isMark_toLower (hplain c hc)).2

end Text

theorem isPlain_anonymousKey (n : Nat) : isPlain (Draft.anonymousKey n) = true :=
  isPlain_append (by decide) (isPlain_toString_nat n)

theorem isTitle_exprName (n : Nat) : isTitle (exprName n) = true :=
  isTitle_of_isPlain (isPlain_append (by decide) (isPlain_toString_nat n))

/-! ## Literals -/

theorem Literal.plainlyNamed_value {l : Literal} (h : l.isPlain = true) :
    l.value.PlainlyNamed := by
  cases l with
  | float x => cases h
  | _ => exact .intro trivial (List.forall_mem_nil _)

namespace Value

theorem plainlyNamed_string (s : String) : (Value.string s).PlainlyNamed :=
  .intro trivial (List.forall_mem_nil _)

theorem plainlyNamed_list {items : List Value} (h : ∀ v ∈ items, v.PlainlyNamed) :
    (Value.list items).PlainlyNamed := .intro trivial h

theorem plainlyNamed_map {entries : List (String × Value)}
    (h : ∀ entry ∈ entries, PlainEntry entry) :
    (Value.map (Properties.ofList entries)).PlainlyNamed := by
  have hofList : ∀ entry ∈ Properties.ofList entries, PlainEntry entry :=
    fun entry hentry => h entry (Properties.mem_of_mem_ofList hentry)
  exact .intro (fun entry hentry => (hofList entry hentry).1)
    (List.forall_mem_map.mpr fun entry hentry => (hofList entry hentry).2)

theorem PlainNode.plainlyNamed {n : Node} (h : PlainNode n) : (Value.node n).PlainlyNamed :=
  .intro h.toPlainlyNamed h.values

theorem PlainEdge.plainlyNamed {e : Edge} (h : PlainEdge e) : (Value.edge e).PlainlyNamed :=
  .intro h.toPlainlyNamed h.values

theorem PlainPath.plainlyNamed {p : Path} (h : PlainPath p) : (Value.path p).PlainlyNamed := by
  have hnames : p.PlainlyNamed := ⟨fun n hn => (h.nodes n hn).toPlainlyNamed,
    fun e he => (h.edges e he).toPlainlyNamed, h.var, h.nonempty⟩
  refine .intro hnames (List.forall_mem_append.mpr ⟨?_, ?_⟩)
  · exact List.forall_mem_flatMap.mpr fun n hn => (h.nodes n hn).values
  · exact List.forall_mem_flatMap.mpr fun e he => (h.edges e he).values

end Value

namespace Expression

-- The recursion is that of `literalValue?`.
mutual

theorem plainlyNamed_literalValue : ∀ {e : Expression} {v : Value}, e.isPlain = true →
    e.literalValue? = some v → v.PlainlyNamed
  | literal l, v, h, hv => by
      cases hv
      exact l.plainlyNamed_value h
  | list items, v, h, hv => by
      obtain ⟨vs, hvs, rfl⟩ := Option.map_eq_some_iff.mp hv
      exact Value.plainlyNamed_list (plainlyNamed_literalValues h hvs)
  | map entries, v, h, hv => by
      obtain ⟨es, hes, rfl⟩ := Option.map_eq_some_iff.mp hv
      exact Value.plainlyNamed_map (plainEntry_literalEntries h hes)
  | unary op operand, v, h, hv => by
      cases op with
      | neg =>
          unfold literalValue? at hv
          split at hv
          · split at hv
            · cases hv
            · cases hv
              exact .intro trivial (List.forall_mem_nil _)
          · next x hx => exact (plainlyNamed_literalValue (e := operand) h hx).names.elim
          · cases hv
      | _ => cases hv
  | var _, v, _, hv => by cases hv
  | parameter _, v, _, hv => by cases hv
  | property _ _, v, _, hv => by cases hv
  | hasLabels _ _, v, _, hv => by cases hv
  | binary _ _ _, v, _, hv => by cases hv
  | call _ _ _, v, _, hv => by cases hv
  | countStar, v, _, hv => by cases hv
  | case _ _ _, v, _, hv => by cases hv

theorem plainlyNamed_literalValues : ∀ {es : List Expression} {vs : List Value},
    allPlain es = true → literalValues? es = some vs → ∀ v ∈ vs, v.PlainlyNamed
  | [], vs, _, hvs => by
      cases hvs
      exact List.forall_mem_nil _
  | e :: es, vs, h, hvs => by
      obtain ⟨he, hes⟩ := Bool.and_eq_true_iff.mp h
      unfold literalValues? at hvs
      split at hvs
      · next v hv =>
          obtain ⟨rest, hrest, rfl⟩ := Option.map_eq_some_iff.mp hvs
          exact List.forall_mem_cons.mpr
            ⟨plainlyNamed_literalValue he hv, plainlyNamed_literalValues hes hrest⟩
      · cases hvs

theorem plainEntry_literalEntries : ∀ {entries : List (String × Expression)}
    {es : List (String × Value)}, allEntriesPlain entries = true →
    literalEntries? entries = some es → ∀ entry ∈ es, Value.PlainEntry entry
  | [], es, _, hes => by
      cases hes
      exact List.forall_mem_nil _
  | (key, e) :: entries, es, h, hes => by
      obtain ⟨hfirst, hentries⟩ := Bool.and_eq_true_iff.mp h
      obtain ⟨hkey, he⟩ := Bool.and_eq_true_iff.mp hfirst
      unfold literalEntries? at hes
      split at hes
      · next v hv =>
          obtain ⟨rest, hrest, rfl⟩ := Option.map_eq_some_iff.mp hes
          exact List.forall_mem_cons.mpr
            ⟨⟨hkey, plainlyNamed_literalValue he hv⟩, plainEntry_literalEntries hentries hrest⟩
      · cases hes

end

end Expression

/-! ## Expressions -/

namespace Expr.Readable

theorem ref (index : Nat) (ty : Ty) : (Expr.ref index ty).Readable := ⟨.ref index ty, .ref index ty⟩

theorem ofValue {v : Value} (h : v.PlainlyNamed) : (Expr.ofValue v).Readable :=
  ⟨.literal h, .literal v⟩

theorem ofString (s : String) : (Expr.ofString s).Readable := ofValue (Value.plainlyNamed_string s)

theorem ofStrings (items : List String) : (Expr.ofStrings items).Readable :=
  ofValue (Value.plainlyNamed_list (List.forall_mem_map.mpr fun s _ => Value.plainlyNamed_string s))

theorem call {op : Operator} {operands : List Expr} {e : Expr}
    (he : Expr.call op operands = .ok e) (hop : op.PlainlyNamed)
    (h : ∀ o ∈ operands, o.Readable) : e.Readable := by
  refine ⟨?_, wellTyped_call (fun o ho => (h o ho).typed) he⟩
  obtain ⟨ty, -, he⟩ := bind_eq_ok.mp he
  cases he
  exact .apply hop fun o ho => (h o ho).plain

theorem call₂ {op : Operator} {a b e : Expr} (he : Expr.call op [a, b] = .ok e)
    (hop : op.PlainlyNamed) (ha : a.Readable) (hb : b.Readable) : e.Readable :=
  call he hop (List.forall_mem_cons.mpr ⟨ha, List.forall_mem_singleton.mpr hb⟩)

theorem stringTest {test : StringTest} {subject part e : Expr} (h : subject.Readable)
    (he : Expr.stringTest test subject part = .ok e) : e.Readable := by
  unfold Expr.stringTest at he
  split at he
  · exact call₂ he trivial h (ofString _)
  · cases he

end Expr.Readable

theorem Schema.readable_lookup {scope : Schema} {name : String} {e : Expr}
    (h : scope.lookup name = .ok e) : e.Readable := by
  unfold Schema.lookup at h
  split at h
  · cases h
    exact .ref _ _
  · cases h

theorem Operator.plainlyNamed_named {name : String} (h : isPlain name = true) :
    (named name).PlainlyNamed := isPlain_lower h

theorem BinaryOp.readable_toExpr {op : BinaryOp} {a b e : Expr} (ha : a.Readable) (hb : b.Readable)
    (h : op.toExpr a b = .ok e) : e.Readable := by
  cases op with
  | startsWith | endsWith | contains => exact ha.stringTest h
  | _ => exact .call₂ h trivial ha hb

theorem UnaryOp.plainlyNamed_toOperator (op : UnaryOp) : op.toOperator.PlainlyNamed := by
  cases op <;> trivial

theorem readable_armCondition {subject : Option Expr} {condition e : Expr}
    (hsubject : ∀ s ∈ subject, s.Readable) (hcondition : condition.Readable)
    (h : armCondition subject condition = .ok e) : e.Readable := by
  cases subject with
  | none =>
      cases h
      exact hcondition
  | some s => exact .call₂ h trivial (hsubject s rfl) hcondition

namespace Expression

variable {scope : Schema}

-- The recursion is that of `toExpr`: one statement for an expression and one for each kind of list.
mutual

/-- **What a plain expression is lowered to can be read off.** -/
theorem readable_toExpr : ∀ {e : Expression} {x : Expr}, e.isPlain = true →
    e.toExpr scope = .ok x → x.Readable
  | literal l, x, h, hx => by
      cases hx
      exact .ofValue (l.plainlyNamed_value h)
  | var name, x, _, hx => Schema.readable_lookup hx
  | parameter name, x, _, hx => by cases hx
  | property name key, x, _, hx => by
      obtain ⟨target, htarget, hx⟩ := bind_eq_ok.mp hx
      exact .call₂ hx trivial (Schema.readable_lookup htarget) (.ofString key)
  | hasLabels name labels, x, _, hx => by
      obtain ⟨target, htarget, hx⟩ := bind_eq_ok.mp hx
      exact .call₂ hx trivial (Schema.readable_lookup htarget) (.ofStrings labels)
  | binary left op right, x, h, hx => by
      obtain ⟨hleft, hright⟩ := Bool.and_eq_true_iff.mp h
      obtain ⟨a, ha, hx⟩ := bind_eq_ok.mp hx
      obtain ⟨b, hb, hx⟩ := bind_eq_ok.mp hx
      exact op.readable_toExpr (readable_toExpr hleft ha) (readable_toExpr hright hb) hx
  | unary op operand, x, h, hx => by
      obtain ⟨a, ha, hx⟩ := bind_eq_ok.mp hx
      have hoperand := readable_toExpr (e := operand) h ha
      exact .call hx op.plainlyNamed_toOperator (List.forall_mem_singleton.mpr hoperand)
  | call name args distinct, x, h, hx => by
      obtain ⟨hname, hargs⟩ := Bool.and_eq_true_iff.mp h
      unfold toExpr at hx
      split at hx
      · cases hx
      · obtain ⟨operands, hoperands, hx⟩ := bind_eq_ok.mp hx
        exact .call hx (Operator.plainlyNamed_named hname) (readable_toExprs hargs hoperands)
  | countStar, x, _, hx => by cases hx
  | list items, x, h, hx => by
      obtain ⟨operands, hoperands, hx⟩ := bind_eq_ok.mp hx
      exact .call hx trivial (readable_toExprs h hoperands)
  | map entries, x, h, hx => by
      obtain ⟨operands, hoperands, hx⟩ := bind_eq_ok.mp hx
      exact .call hx trivial (readable_entryExprs h hoperands)
  | case input arms otherwise, x, h, hx => by
      obtain ⟨hfirst, hotherwise⟩ := Bool.and_eq_true_iff.mp h
      obtain ⟨hinput, harms⟩ := Bool.and_eq_true_iff.mp hfirst
      obtain ⟨subject, hsubject, hx⟩ := bind_eq_ok.mp hx
      obtain ⟨operands, hoperands, hx⟩ := bind_eq_ok.mp hx
      obtain ⟨last, hlast, hx⟩ := bind_eq_ok.mp hx
      have hsubject := readable_optionExpr hinput hsubject
      have hlast : ∀ o ∈ last.toList, o.Readable :=
        fun o ho => readable_optionExpr hotherwise hlast o (Option.mem_toList.mp ho)
      exact .call hx trivial (List.forall_mem_append.mpr
        ⟨readable_armExprs hsubject harms hoperands, hlast⟩)

theorem readable_toExprs : ∀ {es : List Expression} {xs : List Expr}, allPlain es = true →
    toExprs scope es = .ok xs → ∀ x ∈ xs, x.Readable
  | [], xs, _, hxs => by
      cases hxs
      exact List.forall_mem_nil _
  | e :: es, xs, h, hxs => by
      obtain ⟨he, hes⟩ := Bool.and_eq_true_iff.mp h
      obtain ⟨x, hx, hxs⟩ := bind_eq_ok.mp hxs
      obtain ⟨rest, hrest, hxs⟩ := bind_eq_ok.mp hxs
      cases hxs
      exact List.forall_mem_cons.mpr ⟨readable_toExpr he hx, readable_toExprs hes hrest⟩

theorem readable_entryExprs : ∀ {entries : List (String × Expression)} {xs : List Expr},
    allEntriesPlain entries = true → entryExprs scope entries = .ok xs → ∀ x ∈ xs, x.Readable
  | [], xs, _, hxs => by
      cases hxs
      exact List.forall_mem_nil _
  | (key, e) :: entries, xs, h, hxs => by
      obtain ⟨hfirst, hentries⟩ := Bool.and_eq_true_iff.mp h
      obtain ⟨-, he⟩ := Bool.and_eq_true_iff.mp hfirst
      obtain ⟨x, hx, hxs⟩ := bind_eq_ok.mp hxs
      obtain ⟨rest, hrest, hxs⟩ := bind_eq_ok.mp hxs
      cases hxs
      refine List.forall_mem_cons.mpr ⟨.ofString key, ?_⟩
      exact List.forall_mem_cons.mpr ⟨readable_toExpr he hx, readable_entryExprs hentries hrest⟩

theorem readable_armExprs {subject : Option Expr} (hsubject : ∀ s ∈ subject, s.Readable) :
    ∀ {arms : List (Expression × Expression)} {xs : List Expr}, allArmsPlain arms = true →
      armExprs scope subject arms = .ok xs → ∀ x ∈ xs, x.Readable
  | [], xs, _, hxs => by
      cases hxs
      exact List.forall_mem_nil _
  | (condition, value) :: arms, xs, h, hxs => by
      obtain ⟨hfirst, harms⟩ := Bool.and_eq_true_iff.mp h
      obtain ⟨hcondition, hvalue⟩ := Bool.and_eq_true_iff.mp hfirst
      obtain ⟨c, hc, hxs⟩ := bind_eq_ok.mp hxs
      obtain ⟨tested, htested, hxs⟩ := bind_eq_ok.mp hxs
      obtain ⟨v, hv, hxs⟩ := bind_eq_ok.mp hxs
      obtain ⟨rest, hrest, hxs⟩ := bind_eq_ok.mp hxs
      cases hxs
      have htested := readable_armCondition hsubject (readable_toExpr hcondition hc) htested
      refine List.forall_mem_cons.mpr ⟨htested, List.forall_mem_cons.mpr ⟨?_, ?_⟩⟩
      · exact readable_toExpr hvalue hv
      · exact readable_armExprs hsubject harms hrest

theorem readable_optionExpr : ∀ {e : Option Expression} {x : Option Expr}, optionPlain e = true →
    optionExpr scope e = .ok x → ∀ o ∈ x, o.Readable
  | none, x, _, hx => by
      cases hx
      exact nofun
  | some e, x, h, hx => by
      obtain ⟨o, ho, hx⟩ := bind_eq_ok.mp hx
      cases hx
      intro o ho'
      cases ho'
      exact readable_toExpr (e := e) h ho

end

end Expression

/-! ## Patterns -/

theorem Expression.plain_of_mem {entries : List (String × Expression)}
    (h : allEntriesPlain entries = true) :
    ∀ entry ∈ entries, Text.isPlain entry.1 = true ∧ entry.2.isPlain = true := by
  induction entries with
  | nil => exact List.forall_mem_nil _
  | cons entry rest ih =>
      obtain ⟨hfirst, hrest⟩ := Bool.and_eq_true_iff.mp h
      exact List.forall_mem_cons.mpr ⟨Bool.and_eq_true_iff.mp hfirst, ih hrest⟩

theorem plainEntry_literalProperties {entries : List (String × Expression)}
    {properties : Properties} (h : Expression.allEntriesPlain entries = true)
    (hp : literalProperties entries = .ok properties) :
    ∀ entry ∈ properties, Value.PlainEntry entry := by
  obtain ⟨values, hvalues, hp⟩ := bind_eq_ok.mp hp
  cases hp
  intro entry hentry
  obtain ⟨written, hwritten, hkey, hvalue⟩ := exists_mem_of_forall₂
    (literalEntries_eq_ok.mp hvalues) (Properties.mem_of_mem_ofList hentry)
  obtain ⟨hplain, hexpression⟩ := Expression.plain_of_mem h written hwritten
  exact ⟨hkey ▸ hplain, Expression.plainlyNamed_literalValue hexpression hvalue⟩

/-- The node of a plain pattern, and the name by which edges refer to it. -/
theorem NodePattern.plain_toNode {p : NodePattern} {n m : Nat} {k : KeyedNode}
    (hp : p.isPlain = true) (h : p.toNode n = .ok (k, m)) :
    Value.PlainNode k.node ∧ Text.isPlain k.key = true := by
  obtain ⟨hnames, hproperties⟩ := Bool.and_eq_true_iff.mp hp
  obtain ⟨hvar, hlabels⟩ := Bool.and_eq_true_iff.mp hnames
  obtain ⟨hdescribes, hkey, hendpoint, -⟩ := toNode_eq_ok h
  have hentries := plainEntry_literalProperties hproperties hdescribes.properties
  have hkeyPlain : Text.isPlain k.key = true := by
    rw [hkey]
    cases hname : p.var with
    | none => exact isPlain_anonymousKey n
    | some name =>
        rw [hname] at hvar
        exact hvar
  -- The key in the node, if there is one, is the one that edges refer to it by.
  have hkeys : k.node.key = none ∨ k.node.var = none ∧ k.node.key = some k.key := by
    cases hname : k.node.var with
    | none => exact Or.inr ⟨rfl, by simpa [NodeOf.endpoint?, hname] using hendpoint⟩
    | some name =>
        have hnone := hdescribes.key
        rw [← hdescribes.var, hname] at hnone
        exact Or.inl (by simpa using hnone)
  refine ⟨⟨⟨?_, fun entry hentry => (hentries entry hentry).1, ?_, ?_, ?_⟩, ?_⟩, hkeyPlain⟩
  · rw [hdescribes.labels]
    exact List.all_eq_true.mp hlabels
  · rw [hdescribes.var]
    exact (Option.all_eq_true _ _).mp hvar
  · intro name hname
    rcases hkeys with hnone | ⟨-, hsome⟩
    · rw [hnone] at hname
      cases hname
    · rw [hsome] at hname
      cases hname
      exact hkeyPlain
  · exact hkeys.elim Or.inr fun hsome => Or.inl hsome.1
  · exact List.forall_mem_map.mpr fun entry hentry => (hentries entry hentry).2

/-- An edge with plain ends is plain if its pattern is. -/
theorem EdgePattern.plainEdge {p : EdgePattern} {edge : Edge} (hp : p.isPlain = true)
    (hlabels : edge.labels = p.types)
    (hproperties : literalProperties p.properties = .ok edge.properties)
    (hvar : edge.var = p.var) (hsource : Text.isPlain edge.source = true)
    (htarget : Text.isPlain edge.target = true) : Value.PlainEdge edge := by
  obtain ⟨hplain, -⟩ := Bool.and_eq_true_iff.mp hp
  obtain ⟨hnames, hentries⟩ := Bool.and_eq_true_iff.mp hplain
  obtain ⟨hname, htypes⟩ := Bool.and_eq_true_iff.mp hnames
  have hentries := plainEntry_literalProperties hentries hproperties
  refine ⟨⟨?_, fun entry hentry => (hentries entry hentry).1, hsource, htarget, ?_⟩, ?_⟩
  · rw [hlabels]
    exact List.all_eq_true.mp htypes
  · rw [hvar]
    exact (Option.all_eq_true _ _).mp hname
  · exact List.forall_mem_map.mpr fun entry hentry => (hentries entry hentry).2

theorem EdgePattern.isPlain_target {p : EdgePattern} (hp : p.isPlain = true) :
    p.target.isPlain = true := (Bool.and_eq_true_iff.mp hp).2

theorem EdgePattern.plain_toEdge {p : EdgePattern} {left right : String} {edge : Edge}
    (hp : p.isPlain = true) (hleft : Text.isPlain left = true) (hright : Text.isPlain right = true)
    (h : p.toEdge left right = .ok edge) : Value.PlainEdge edge := by
  have hdescribes := toEdge_eq_ok h
  obtain ⟨rfl, rfl⟩ := toEdge_ends h
  exact plainEdge hp hdescribes.types hdescribes.properties hdescribes.var hleft hright

theorem EdgePattern.plain_toSteps {ps : List EdgePattern} {n m : Nat} {left : String}
    {steps : List (Edge × Node)} (hps : ∀ p ∈ ps, p.isPlain = true)
    (hleft : Text.isPlain left = true) (h : EdgePattern.toSteps n left ps = .ok (steps, m)) :
    ∀ step ∈ steps, Value.PlainEdge step.1 ∧ Value.PlainNode step.2 := by
  induction ps generalizing n left steps with
  | nil =>
      cases h
      exact List.forall_mem_nil _
  | cons p ps ih =>
      obtain ⟨hp, hps⟩ := List.forall_mem_cons.mp hps
      obtain ⟨⟨right, k⟩, hnode, h⟩ := bind_eq_ok.mp h
      obtain ⟨edge, hedge, h⟩ := bind_eq_ok.mp h
      obtain ⟨⟨rest, l⟩, hrest, h⟩ := bind_eq_ok.mp h
      cases h
      obtain ⟨hplain, hright⟩ := NodePattern.plain_toNode (isPlain_target hp) hnode
      exact List.forall_mem_cons.mpr
        ⟨⟨plain_toEdge hp hleft hright hedge, hplain⟩, ih hps hright hrest⟩

namespace Pattern

theorem isPlain_iff {p : Pattern} : p.isPlain = true ↔ (∀ name ∈ p.var, Text.isPlain name = true) ∧
    p.source.isPlain = true ∧ ∀ edge ∈ p.edges, edge.isPlain = true := by
  rw [isPlain, Bool.and_eq_true, Bool.and_eq_true, Option.all_eq_true, List.all_eq_true, and_assoc]
  rfl

/-- **The path of a plain pattern can be read off.** -/
theorem plain_toPath {p : Pattern} {n m : Nat} {path : Path} (hp : p.isPlain = true)
    (h : p.toPath n = .ok (path, m)) : Value.PlainPath path := by
  obtain ⟨hvar, hsource, hedges⟩ := isPlain_iff.mp hp
  obtain ⟨⟨first, k⟩, hfirst, h⟩ := bind_eq_ok.mp h
  obtain ⟨⟨steps, l⟩, hsteps, h⟩ := bind_eq_ok.mp h
  cases h
  obtain ⟨hnode, hkey⟩ := NodePattern.plain_toNode hsource hfirst
  have hplain := EdgePattern.plain_toSteps hedges hkey hsteps
  refine ⟨List.forall_mem_cons.mpr ⟨hnode, ?_⟩, ?_, hvar, List.cons_ne_nil _ _⟩
  · exact List.forall_mem_map.mpr fun step hstep => (hplain step hstep).2
  · exact List.forall_mem_map.mpr fun step hstep => (hplain step hstep).1

theorem plain_toPaths {ps : List Pattern} {n m : Nat} {paths : List Path}
    (hps : ∀ p ∈ ps, p.isPlain = true) (h : toPaths n ps = .ok (paths, m)) :
    ∀ path ∈ paths, Value.PlainPath path := by
  induction ps generalizing n paths with
  | nil =>
      cases h
      exact List.forall_mem_nil _
  | cons p ps ih =>
      obtain ⟨hp, hps⟩ := List.forall_mem_cons.mp hps
      obtain ⟨⟨path, k⟩, hpath, h⟩ := bind_eq_ok.mp h
      obtain ⟨⟨rest, l⟩, hrest, h⟩ := bind_eq_ok.mp h
      cases h
      exact List.forall_mem_cons.mpr ⟨plain_toPath hp hpath, ih hps hrest⟩

end Pattern

/-! ## What is to be created -/

/-- The names of an edge to create are plain, and so are those of its ends. -/
structure BoundEdge.Plain (b : BoundEdge) : Prop where
  name : ∀ name ∈ b.name, isPlain name = true
  edge : Value.PlainEdge b.edge
  left : isPlain b.left = true
  right : isPlain b.right = true

structure Creation.Plain (c : Creation) : Prop where
  nodes : ∀ k ∈ c.nodes, Value.PlainNode k.node
  edges : ∀ b ∈ c.edges, b.Plain

theorem plain_createEdge {p : EdgePattern} {left right : String} {bound : BoundEdge}
    (hp : p.isPlain = true) (hleft : isPlain left = true) (hright : isPlain right = true)
    (h : createEdge p left right = .ok bound) : bound.Plain := by
  have hbound {source target : String} {properties : Properties}
      (hproperties : literalProperties p.properties = .ok properties)
      (hsource : isPlain source = true) (htarget : isPlain target = true) : BoundEdge.Plain
        ⟨p.var, .single p.types properties source target .outgoing p.var, source, target⟩ := by
    have hedge : Value.PlainEdge (.single p.types properties source target .outgoing p.var) :=
      p.plainEdge hp rfl hproperties rfl hsource htarget
    exact ⟨hedge.var, hedge, hsource, htarget⟩
  unfold createEdge at h
  cases hdirection : p.direction with
  | undirected =>
      rw [hdirection] at h
      cases h
  | outgoing | incoming =>
      rw [hdirection] at h
      obtain ⟨_, hends, h⟩ := bind_eq_ok.mp h
      cases hends
      obtain ⟨_, -, h⟩ := bind_eq_ok.mp h
      obtain ⟨_, -, h⟩ := bind_eq_ok.mp h
      obtain ⟨properties, hproperties, h⟩ := bind_eq_ok.mp h
      cases h
      exact hbound hproperties (by assumption) (by assumption)

theorem plain_createPattern {scope : Schema} {n m : Nat} {p : Pattern} {created : Creation}
    (hp : p.isPlain = true) (h : createPattern scope n p = .ok (created, m)) : created.Plain := by
  obtain ⟨-, hsource, hedges⟩ := Pattern.isPlain_iff.mp hp
  obtain ⟨_, -, h⟩ := bind_eq_ok.mp h
  obtain ⟨_, -, h⟩ := bind_eq_ok.mp h
  obtain ⟨⟨left, k⟩, hleft, h⟩ := bind_eq_ok.mp h
  obtain ⟨hnode, hkey⟩ := NodePattern.plain_toNode hsource (createNode_eq_ok hleft)
  cases hshape : p.edges with
  | nil =>
      simp only [hshape] at h
      cases h
      exact ⟨List.forall_mem_singleton.mpr hnode, List.forall_mem_nil _⟩
  | cons edge rest =>
      simp only [hshape] at h
      obtain ⟨⟨right, l⟩, hright, h⟩ := bind_eq_ok.mp h
      obtain ⟨bound, hbound, h⟩ := bind_eq_ok.mp h
      cases h
      have hedge := hedges edge (hshape ▸ List.mem_cons_self)
      obtain ⟨hother, hotherKey⟩ :=
        NodePattern.plain_toNode (EdgePattern.isPlain_target hedge) (createNode_eq_ok hright)
      exact ⟨List.forall_mem_cons.mpr ⟨hnode, List.forall_mem_singleton.mpr hother⟩,
        List.forall_mem_singleton.mpr (plain_createEdge hedge hkey hotherKey hbound)⟩

/-- **What plain patterns create can be read off.** -/
theorem plain_createPatterns {scope : Schema} {n m : Nat} {ps : List Pattern} {created : Creation}
    (hps : ∀ p ∈ ps, p.isPlain = true) (h : createPatterns scope n ps = .ok (created, m)) :
    created.Plain := by
  induction ps generalizing n created with
  | nil =>
      cases h
      exact ⟨List.forall_mem_nil _, List.forall_mem_nil _⟩
  | cons p ps ih =>
      obtain ⟨hp, hps⟩ := List.forall_mem_cons.mp hps
      obtain ⟨⟨first, k⟩, hfirst, h⟩ := bind_eq_ok.mp h
      obtain ⟨⟨rest, l⟩, hrest, h⟩ := bind_eq_ok.mp h
      cases h
      have hfirst := plain_createPattern hp hfirst
      have hrest := ih hps hrest
      exact ⟨List.forall_mem_append.mpr ⟨hfirst.nodes, hrest.nodes⟩,
        List.forall_mem_append.mpr ⟨hfirst.edges, hrest.edges⟩⟩

end QueryPlan
