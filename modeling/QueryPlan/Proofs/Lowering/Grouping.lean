import QueryPlan.Proofs.Lowering.Projection

/-!
# Grouping projections

With an aggregate among its items, a projection groups. The items without aggregates, after the
fields of the star, are the group's key; each other item is one call. Key columns and the columns of
arguments are computed below the groups, first all the keys and then the arguments, and calls refer
to their arguments by position. `GroupedAs` says what stands at each position, for items in any
order.
-/

namespace QueryPlan

/-- The groups of a plan by its first `width` fields. -/
def Plan.grouping (input : Plan) (width : Nat) (calls : List Aggregate) : Plan :=
  ⟨none, .aggregate (List.range width) calls, [input],
    ⟨"_id", .document⟩ :: calls.map fun call => ⟨call.name, .document⟩, input.model⟩

/-! ## Calls -/

/-- The call that an item asks for: `count(*)`, or an aggregate whose argument is a column. -/
inductive ReturnItem.CalledAs (scope : Schema) (columns : List Column) (item : ReturnItem) :
    Aggregate → Prop
  | countStar : item.expression = .countStar →
      CalledAs scope columns item ⟨.count, [], false, item.name⟩
  | call {f : String} {arg : Expression} {distinct : Bool} {function : AggregateFunction}
      {i : Nat} {column : Column} :
      item.expression = .call f [arg] distinct → AggregateFunction.ofName? f = some function →
      columns[i]? = some column → arg.toExpr scope = .ok column.expr →
      CalledAs scope columns item ⟨function, [i], distinct, item.name⟩

theorem ReturnItem.CalledAs.name_eq {scope : Schema} {columns : List Column} {item : ReturnItem}
    {call : Aggregate} (h : item.CalledAs scope columns call) : call.name = item.name := by
  cases h <;> rfl

/-- The call that an aggregate becomes over columns. -/
inductive AggregateItem.CalledAs (scope : Schema) (columns : List Column) (a : AggregateItem) :
    Aggregate → Prop
  | bare : a.argument = none → CalledAs scope columns a ⟨a.function, [], a.distinct, a.name⟩
  | argument {arg : Expression} {i : Nat} {column : Column} : a.argument = some arg →
      columns[i]? = some column → arg.toExpr scope = .ok column.expr →
      CalledAs scope columns a ⟨a.function, [i], a.distinct, a.name⟩

/-- An item that can be taken apart is called as its aggregate is. -/
theorem AggregateItem.CalledAs.of_item {scope : Schema} {columns : List Column} {item : ReturnItem}
    {a : AggregateItem} {call : Aggregate} (hitem : aggregateItem item.name item.expression = .ok a)
    (h : a.CalledAs scope columns call) : item.CalledAs scope columns call := by
  unfold aggregateItem at hitem
  split at hitem
  · next hstar =>
      cases hitem
      cases h with
      | bare _ => exact .countStar hstar
      | argument harg _ _ => cases harg
  · next f args distinct hcall =>
      split at hitem
      · cases hitem
      · next function hfunction =>
          split at hitem
          · next arg =>
              split at hitem
              · cases hitem
              · cases hitem
                cases h with
                | bare harg => cases harg
                | argument harg hcolumn hlowered =>
                    cases harg
                    exact .call hcall hfunction hcolumn hlowered
          · cases hitem
  · cases hitem

/-- The columns of the arguments stand behind those in front, and calls point to them there. -/
theorem aggregateCalls_eq_ok {scope : Schema} {front columns : List Column} {count : Nat}
    {items : List AggregateItem} {calls : List Aggregate}
    (h : aggregateCalls scope front.length count items = .ok (columns, calls)) :
    List.Forall₂ (AggregateItem.CalledAs scope (front ++ columns)) items calls ∧
      (∀ c ∈ columns, ∃ arg : Expression, arg.toExpr scope = .ok c.expr) ∧
      ∃ names : List String, columns.map Column.name = names.map some := by
  induction items generalizing front columns count calls with
  | nil =>
      cases h
      exact ⟨.nil, List.forall_mem_nil _, [], rfl⟩
  | cons a items ih =>
      unfold aggregateCalls at h
      split at h
      · next arg harg =>
          obtain ⟨e, he, h⟩ := bind_eq_ok.mp h
          obtain ⟨⟨columns, calls⟩, hrest, h⟩ := bind_eq_ok.mp h
          cases h
          -- For the items after it, the column of this argument is one more in front.
          have hfront : (front ++ [(⟨some (exprName count), e⟩ : Column)]).length =
              front.length + 1 := by simp
          rw [← hfront] at hrest
          obtain ⟨hcalls, hcolumns, names, hnames⟩ := ih hrest
          rw [List.append_assoc, List.singleton_append] at hcalls
          have hcolumn :
              (front ++ (⟨some (exprName count), e⟩ : Column) :: columns)[front.length]? =
                some ⟨some (exprName count), e⟩ := by simp
          refine ⟨.cons (.argument harg hcolumn he) hcalls,
            List.forall_mem_cons.mpr ⟨⟨arg, he⟩, hcolumns⟩, exprName count :: names, ?_⟩
          rw [List.map_cons, List.map_cons, hnames]
      · next hnone =>
          obtain ⟨⟨columns, calls⟩, hrest, h⟩ := bind_eq_ok.mp h
          cases h
          obtain ⟨hcalls, hcolumns⟩ := ih hrest
          exact ⟨.cons (.bare hnone) hcalls, hcolumns⟩

/-! ## Items -/

/-- Items are divided into key columns and aggregates, and both keep their order. -/
theorem splitItems_eq_ok {scope : Schema} {items : List ReturnItem} {keys : List Column}
    {aggregates : List AggregateItem} (h : splitItems scope items = .ok (keys, aggregates)) :
    List.Forall₂ (ReturnItem.Becomes scope)
        (items.filter fun item => !item.expression.containsAggregate) keys ∧
      List.Forall₂ (fun item a => aggregateItem item.name item.expression = .ok a)
        (items.filter fun item => item.expression.containsAggregate) aggregates := by
  induction items generalizing keys aggregates with
  | nil =>
      cases h
      exact ⟨.nil, .nil⟩
  | cons item items ih =>
      unfold splitItems at h
      split at h
      · next hagg =>
          obtain ⟨a, ha, h⟩ := bind_eq_ok.mp h
          obtain ⟨⟨keys, aggregates⟩, hrest, h⟩ := bind_eq_ok.mp h
          cases h
          obtain ⟨hkeys, haggregates⟩ := ih hrest
          simp only [List.filter_cons, hagg, Bool.not_true, Bool.false_eq_true, if_false, if_true]
          exact ⟨hkeys, .cons ha haggregates⟩
      · next hplain =>
          obtain ⟨e, he, h⟩ := bind_eq_ok.mp h
          obtain ⟨⟨keys, aggregates⟩, hrest, h⟩ := bind_eq_ok.mp h
          cases h
          obtain ⟨hkeys, haggregates⟩ := ih hrest
          simp only [List.filter_cons, hplain, Bool.not_false, if_true]
          exact ⟨.cons ⟨rfl, he⟩ hkeys, haggregates⟩

namespace Projection

variable {p : Projection} {input plan : Plan} {columns : List Column} {calls : List Aggregate}

/-- The items that belong to the group's key. -/
def keyItems (p : Projection) : List ReturnItem :=
  p.items.filter fun item => !item.expression.containsAggregate

/-- The items that ask for aggregates. -/
def aggregateItems (p : Projection) : List ReturnItem :=
  p.items.filter fun item => item.expression.containsAggregate

/-- The number of columns in the group's key. -/
def keyWidth (p : Projection) (scope : Schema) : Nat :=
  (p.starFields scope).length + p.keyItems.length

/-- What is computed below the groups, and what is called over it. -/
structure GroupedAs (p : Projection) (scope : Schema) (columns : List Column)
    (calls : List Aggregate) : Prop where
  /-- Every column has a name, so that the fields are the columns one by one. -/
  named : ∃ names : List String, columns.map Column.name = names.map some
  star : ∀ i f, (p.starFields scope)[i]? = some f →
    columns[i]? = some (⟨some f.name, .ref i f.ty⟩ : Column)
  key : ∀ j item, p.keyItems[j]? = some item →
    ∃ column, columns[(p.starFields scope).length + j]? = some column ∧ item.Becomes scope column
  calls : List.Forall₂ (ReturnItem.CalledAs scope columns) p.aggregateItems calls
  /-- A column repeats a field of the star or is lowered over the input. -/
  computed : ∀ c ∈ columns, c ∈ starColumns (p.starFields scope) ∨
    ∃ e : Expression, e.toExpr scope = .ok c.expr

theorem group_eq_ok (h : p.group input = .ok plan) :
    ∃ columns calls, p.GroupedAs input.schema columns calls ∧
      plan = (input.projecting columns).grouping (p.keyWidth input.schema) calls := by
  obtain ⟨⟨keys, aggregates⟩, hsplit, h⟩ := bind_eq_ok.mp h
  obtain ⟨⟨arguments, calls⟩, hcalls, h⟩ := bind_eq_ok.mp h
  obtain ⟨project, hproject, h⟩ := bind_eq_ok.mp h
  obtain ⟨hkeys, haggregates⟩ := splitItems_eq_ok hsplit
  obtain ⟨hcalls, harguments, argumentNames, hargumentNames⟩ := aggregateCalls_eq_ok hcalls
  obtain rfl := (Plan.yields_projectColumns _ _).result hproject
  have hplan := (Plan.yields_aggregate _ _ _).result h
  have hwidth : (starColumns (p.starFields input.schema) ++ keys).length =
      p.keyWidth input.schema := by
    rw [List.length_append, length_starColumns, ← hkeys.length_eq]
    rfl
  rw [hwidth] at hplan
  refine ⟨_, calls, ⟨?_, fun i f hf => ?_, fun j item hitem => ?_, ?_, fun c hc => ?_⟩, hplan⟩
  · refine ⟨(p.starFields input.schema).names ++ p.keyItems.map ReturnItem.name ++ argumentNames,
      ?_⟩
    rw [List.map_append, List.map_append, name_starColumns, name_itemColumns hkeys,
      hargumentNames, List.map_append, List.map_append]
    rfl
  · have hcolumn : (starColumns (p.starFields input.schema))[i]? =
        some ⟨some f.name, .ref i f.ty⟩ := by
      rw [getElem?_starColumns, hf, Option.map_some]
    rw [List.append_assoc]
    exact getElem?_append_of_some hcolumn _
  · obtain ⟨column, hcolumn, hbecomes⟩ := exists_getElem?_of_forall₂ hkeys hitem
    refine ⟨column, ?_, hbecomes⟩
    rw [List.append_assoc, ← length_starColumns, List.getElem?_append_right (Nat.le_add_right _ _),
      Nat.add_sub_cancel_left]
    exact getElem?_append_of_some hcolumn _
  · exact forall₂_trans haggregates hcalls fun _ _ _ hitem hcall => hcall.of_item hitem
  · rcases List.mem_append.mp hc with hfront | hargument
    · refine (List.mem_append.mp hfront).imp_right fun hkey => ?_
      obtain ⟨item, -, hitem⟩ := exists_mem_of_forall₂ hkeys hkey
      exact ⟨item.expression, hitem.expr⟩
    · exact Or.inr (harguments c hargument)

theorem sortGroups_eq_ok {groups : Plan} (h : p.sortGroups groups = .ok plan) :
    plan = groups ∨ ∃ keys offset limit, plan = groups.sorting keys offset limit := by
  unfold sortGroups at h
  split at h
  · split at h
    · cases h
    · obtain ⟨keys, offset, limit, -, -, -, hplan⟩ := sort_eq_sorting h
      exact Or.inr ⟨keys, offset, limit, hplan⟩
  · cases h
    exact Or.inl rfl

/-- A projection with aggregates groups, and perhaps sorts the groups. No two of its items have one
name. -/
theorem toPlan_eq_grouping (hgroups : p.items.any (·.expression.containsAggregate) = true)
    (h : p.toPlan input = .ok plan) :
    (p.names input.schema).Nodup ∧ ∃ columns calls, p.GroupedAs input.schema columns calls ∧
      let groups := (input.projecting columns).grouping (p.keyWidth input.schema) calls
      (plan = groups ∨ ∃ keys offset limit, plan = groups.sorting keys offset limit) := by
  unfold toPlan at h
  simp only [hgroups, bind_eq_ok, require_eq_ok, if_true] at h
  obtain ⟨_, -, _, hnodup, groups, hgroup, h⟩ := h
  obtain ⟨columns, calls, hgrouped, rfl⟩ := group_eq_ok hgroup
  rw [List.isEmpty_iff, duplicateNames_eq_nil_iff] at hnodup
  exact ⟨hnodup, columns, calls, hgrouped, sortGroups_eq_ok h⟩

/-- The fields of groups: the key as a document, and the aggregates. -/
def groupFields (p : Projection) : Schema :=
  ⟨"_id", .document⟩ :: p.aggregateItems.map fun item => ⟨item.name, .document⟩

theorem GroupedAs.schema_grouping {scope : Schema} (h : p.GroupedAs scope columns calls)
    (project : Plan) (width : Nat) : (project.grouping width calls).schema = p.groupFields := by
  have hfields : calls.map (fun call => (⟨call.name, .document⟩ : Field)) =
      p.aggregateItems.map fun item => ⟨item.name, .document⟩ :=
    map_eq_of_forall₂ h.calls fun _ _ hcall => by rw [hcall.name_eq]
  rw [Plan.grouping, groupFields, hfields]

theorem schema_eq_groupFields (hgroups : p.items.any (·.expression.containsAggregate) = true)
    (h : p.toPlan input = .ok plan) : plan.schema = p.groupFields := by
  obtain ⟨-, columns, calls, hgrouped, hplan⟩ := toPlan_eq_grouping hgroups h
  have hschema := hgrouped.schema_grouping (input.projecting columns) (p.keyWidth input.schema)
  rcases hplan with rfl | ⟨keys, offset, limit, rfl⟩
  · exact hschema
  · exact hschema

/-- **Groups refer to the right columns.** A projection with an aggregate among its items becomes
groups, perhaps sorted, over a projection of the input. The key is the first columns: those of the
star, and those of the items without aggregates. Each other item is one call, in the order of the
items, with its function, its `DISTINCT` and its name, and its argument is the column that computes
the argument asked for. The fields are `_id` and the aggregates. -/
theorem grouping_refers_to_columns (p : Projection) (input plan : Plan)
    (hgroups : p.items.any (·.expression.containsAggregate) = true)
    (h : p.toPlan input = .ok plan) :
    ∃ (columns : List Column) (calls : List Aggregate) (groups : Plan),
      (plan = groups ∨ ∃ keys offset limit, plan = groups.sorting keys offset limit) ∧
      groups.op = .aggregate (List.range (p.keyWidth input.schema)) calls ∧
      groups.inputs = [input.projecting columns] ∧
      p.GroupedAs input.schema columns calls ∧
      plan.schema = ⟨"_id", .document⟩ :: p.aggregateItems.map fun item =>
        ⟨item.name, .document⟩ := by
  obtain ⟨-, columns, calls, hgrouped, hplan⟩ := toPlan_eq_grouping hgroups h
  exact ⟨columns, calls, _, hplan, rfl, rfl, hgrouped, schema_eq_groupFields hgroups h⟩

/-- `RETURN *, count(*) AS total, size(nodeType) AS width, collect(DISTINCT propertyName) AS names
ORDER BY total DESC` -/
def tally : Projection :=
  ⟨false, true, [⟨.countStar, some "total", none⟩,
    ⟨.call "size" [.var "nodeType"] false, some "width", none⟩,
    ⟨.call "collect" [.var "propertyName"] true, some "names", none⟩],
    [⟨.var "total", .descending⟩], none, none⟩

/-- The key has four columns, and the argument of `collect` stands behind them. -/
theorem tally_refers_to_columns :
    ∃ (plan groups : Plan) (columns : List Column) (calls : List Aggregate),
      tally.toPlan nodeProperties = .ok plan ∧
      plan.fingerprint = "Sort[GRAPH]($1 DESC)[Aggregate[GRAPH](keys=[0, 1, 2, 3], " ++
        "calls=[COUNT(*) AS total, COLLECT(DISTINCT $4) AS names])" ++
        "[Project[GRAPH](\"nodeType\"=$0, \"propertyName\"=$1, \"propertyTypes\"=$2, " ++
        "\"width\"=size($0), \"EXPR$1\"=$1)" ++
        "[Call[GRAPH](ns0 db.schema.nodeTypeProperties() YIELD *)]]]" ∧
      groups.op = .aggregate [0, 1, 2, 3] calls ∧
      groups.inputs = [nodeProperties.projecting columns] ∧
      tally.GroupedAs nodeProperties.schema columns calls ∧
      plan.schema = [⟨"_id", .document⟩, ⟨"total", .document⟩, ⟨"names", .document⟩] := by
  have hrun : (tally.toPlan nodeProperties).toOption.map Plan.fingerprint =
      some ("Sort[GRAPH]($1 DESC)[Aggregate[GRAPH](keys=[0, 1, 2, 3], " ++
        "calls=[COUNT(*) AS total, COLLECT(DISTINCT $4) AS names])" ++
        "[Project[GRAPH](\"nodeType\"=$0, \"propertyName\"=$1, \"propertyTypes\"=$2, " ++
        "\"width\"=size($0), \"EXPR$1\"=$1)" ++
        "[Call[GRAPH](ns0 db.schema.nodeTypeProperties() YIELD *)]]]") := by
    decide +kernel
  obtain ⟨plan, h, htext⟩ := toOption_map_eq_some.mp hrun
  have hgroups : tally.items.any (·.expression.containsAggregate) = true := by decide +kernel
  obtain ⟨columns, calls, groups, -, hop, hinputs, hgrouped, hschema⟩ :=
    grouping_refers_to_columns tally nodeProperties plan hgroups h
  have hwidth : List.range (tally.keyWidth nodeProperties.schema) = [0, 1, 2, 3] := by
    decide +kernel
  have hfields : tally.groupFields =
      [⟨"_id", .document⟩, ⟨"total", .document⟩, ⟨"names", .document⟩] := by decide +kernel
  rw [hwidth] at hop
  exact ⟨plan, groups, columns, calls, h, htext, hop, hinputs, hgrouped, hschema.trans hfields⟩

end Projection

end QueryPlan
