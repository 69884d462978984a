import QueryPlan.Lowering.Projection
import QueryPlan.Proofs.Expr.WellTyped
import QueryPlan.Proofs.Lists
import QueryPlan.Proofs.Plan.Node
import QueryPlan.Proofs.Schema

/-!
# Sorted projections

A projection may be sorted by expressions that it does not show. Such an expression becomes a hidden
column behind those asked for, the rows are sorted, and the hidden columns are taken away again.

Each step is described here by what it does to the columns and their names. No two columns of the
projection that is sorted have one name, so a name finds its column; and the columns asked for come
first, so that taking away the others leaves the fields of the projection as it is without sorting.
-/

namespace QueryPlan

/-- The columns computed from a plan. -/
def Plan.projecting (input : Plan) (columns : List Column) : Plan :=
  ⟨none, .project columns, [input], Column.fields columns, input.model⟩

/-- A plan with its rows sorted and cut off. -/
def Plan.sorting (input : Plan) (keys : List SortKey) (offset limit : Option Nat) : Plan :=
  ⟨none, .sort keys offset limit, [input], input.schema, input.model⟩

/-- The columns once more, as references to them. -/
def Column.again (columns : List Column) : List Column :=
  columns.mapIdx fun i c => ⟨c.name, .ref i c.expr.ty⟩

namespace Column

variable {columns : List Column} {names : List String}

/-! ## Columns with names -/

theorem exists_name (h : columns.map Column.name = names.map some) {c : Column}
    (hc : c ∈ columns) : ∃ name, c.name = some name := by
  have hname : c.name ∈ names.map some := h ▸ List.mem_map_of_mem hc
  obtain ⟨name, -, hname⟩ := List.mem_map.mp hname
  exact ⟨name, hname.symm⟩

/-- Columns that all have a name yield a field each. -/
theorem fields_eq_map (h : columns.map Column.name = names.map some) :
    fields columns = columns.map fun c => ⟨c.name.getD "", c.expr.ty⟩ := by
  refine List.filterMap_eq_map_iff_forall_eq_some.mpr fun c hc => ?_
  obtain ⟨name, hname⟩ := exists_name h hc
  rw [hname]
  rfl

theorem names_fields (h : columns.map Column.name = names.map some) :
    Schema.names (fields columns) = names := by
  have hgetD : names = (columns.map Column.name).map (·.getD "") := by
    rw [h, List.map_map]
    exact (List.map_id names).symm
  rw [fields_eq_map h, Schema.names, List.map_map, hgetD, List.map_map]
  rfl

theorem fields_append (columns more : List Column) :
    fields (columns ++ more) = fields columns ++ fields more := List.filterMap_append

end Column

theorem Schema.getElem?_refs (s : Schema) (start i : Nat) :
    (s.refs start)[i]? = s[i]?.map fun f => .ref (start + i) f.ty := by
  induction s generalizing start i with
  | nil => rfl
  | cons f s ih =>
      cases i with
      | zero => rfl
      | succ i =>
          rw [Schema.refs, List.getElem?_cons_succ, List.getElem?_cons_succ, ih,
            Nat.add_right_comm, Nat.add_assoc]

theorem getElem?_starColumns (s : Schema) (i : Nat) :
    (starColumns s)[i]? = s[i]?.map fun f => ⟨some f.name, .ref i f.ty⟩ := by
  rw [starColumns, List.getElem?_map, List.zip, List.getElem?_zipWith, Schema.getElem?_refs,
    Nat.zero_add]
  cases s[i]? with
  | none => rfl
  | some f => rfl

theorem mem_starColumns {s : Schema} {c : Column} (h : c ∈ starColumns s) :
    ∃ i f, s[i]? = some f ∧ c = ⟨some f.name, .ref i f.ty⟩ := by
  obtain ⟨i, hi⟩ := List.mem_iff_getElem?.mp h
  rw [getElem?_starColumns] at hi
  obtain ⟨f, hf, rfl⟩ := Option.map_eq_some_iff.mp hi
  exact ⟨i, f, hf, rfl⟩

/-- The columns of a star have the names of the fields. -/
theorem name_starColumns (s : Schema) : (starColumns s).map Column.name = s.names.map some := by
  refine List.ext_getElem? fun i => ?_
  rw [List.getElem?_map, getElem?_starColumns, Schema.names, List.getElem?_map, List.getElem?_map,
    Option.map_map, Option.map_map]
  rfl

theorem length_starColumns (s : Schema) : (starColumns s).length = s.length := by
  have hlength := congrArg List.length (name_starColumns s)
  rwa [Schema.names, List.length_map, List.length_map, List.length_map] at hlength

/-- The columns of a star yield the fields they repeat. -/
theorem fields_starColumns (s : Schema) : Column.fields (starColumns s) = s := by
  rw [Column.fields_eq_map (name_starColumns s)]
  refine List.ext_getElem? fun i => ?_
  rw [List.getElem?_map, getElem?_starColumns, Option.map_map]
  exact congrFun Option.map_id _

/-- A star over columns with names is these columns once more. -/
theorem starColumns_fields {columns : List Column} {names : List String}
    (h : columns.map Column.name = names.map some) :
    starColumns (Column.fields columns) = Column.again columns := by
  refine List.ext_getElem? fun i => ?_
  rw [getElem?_starColumns, Column.fields_eq_map h, List.getElem?_map, Option.map_map,
    Column.again, List.getElem?_mapIdx]
  cases hc : columns[i]? with
  | none => rfl
  | some c =>
      obtain ⟨name, hname⟩ := Column.exists_name h (List.mem_of_getElem? hc)
      simp [hname]

theorem Column.fields_again {columns : List Column} {names : List String}
    (h : columns.map Column.name = names.map some) :
    Column.fields (Column.again columns) = Column.fields columns := by
  rw [← starColumns_fields h, fields_starColumns]

/-! ## Items, hidden columns and sort keys -/

/-- An item becomes a column of its name that computes its expression. -/
structure ReturnItem.Becomes (scope : Schema) (item : ReturnItem) (column : Column) : Prop where
  name : column.name = some item.name
  expr : item.expression.toExpr scope = .ok column.expr

theorem itemColumns_eq_ok {scope : Schema} {items : List ReturnItem} {columns : List Column} :
    itemColumns scope items = .ok columns ↔
      List.Forall₂ (ReturnItem.Becomes scope) items columns := by
  induction items generalizing columns with
  | nil =>
      rw [List.forall₂_nil_left_iff, itemColumns, Except.ok.injEq]
      exact eq_comm
  | cons item items ih =>
      rw [List.forall₂_cons_left_iff, itemColumns]
      constructor
      · intro h
        obtain ⟨e, he, h⟩ := bind_eq_ok.mp h
        obtain ⟨rest, hrest, h⟩ := bind_eq_ok.mp h
        cases h
        exact ⟨_, rest, ⟨rfl, he⟩, ih.mp hrest, rfl⟩
      · rintro ⟨column, rest, ⟨hname, he⟩, hrest, rfl⟩
        rw [he, ok_bind, ih.mpr hrest, ok_bind, ← hname]
        rfl

theorem name_itemColumns {scope : Schema} {items : List ReturnItem} {columns : List Column}
    (h : List.Forall₂ (ReturnItem.Becomes scope) items columns) :
    columns.map Column.name = (items.map ReturnItem.name).map some := by
  rw [List.map_map]
  exact map_eq_of_forall₂ h fun _ _ hitem => hitem.name

/-- A sort expression becomes a hidden column under the name by which it is looked for. -/
structure OrderItem.Becomes (scope : Schema) (item : OrderItem) (column : Column) : Prop where
  name : column.name = some item.expression.sortName
  expr : item.expression.toExpr scope = .ok column.expr

/-- The hidden columns: one for each name of a sort expression that is not taken, and each computes
a sort expression of its name. -/
structure HiddenColumns (scope : Schema) (taken : List String) (items : List OrderItem)
    (columns : List Column) (names : List String) : Prop where
  name : columns.map Column.name = names.map some
  nodup : names.Nodup
  mem_names : ∀ name,
    name ∈ names ↔ name ∉ taken ∧ ∃ item ∈ items, item.expression.sortName = name
  becomes : ∀ column ∈ columns, ∃ item ∈ items, item.Becomes scope column

theorem hiddenColumns_eq_ok {scope : Schema} {taken : List String} {items : List OrderItem}
    {columns : List Column} (h : hiddenColumns scope taken items = .ok columns) :
    ∃ names, HiddenColumns scope taken items columns names := by
  induction items generalizing taken columns with
  | nil =>
      cases h
      exact ⟨[], rfl, List.nodup_nil, by simp, List.forall_mem_nil _⟩
  | cons item items ih =>
      dsimp only [hiddenColumns] at h
      split at h
      · next htaken =>
          -- The name is taken, so the expression adds nothing.
          obtain ⟨names, hname, hnodup, hmem, hbecomes⟩ := ih h
          rw [List.contains_iff_mem] at htaken
          refine ⟨names, hname, hnodup, fun name => ?_, fun column hcolumn => ?_⟩
          · rw [hmem, List.exists_mem_cons_iff]
            refine and_congr_right fun hfree => ?_
            rw [or_iff_right]
            rintro rfl
            exact hfree htaken
          · obtain ⟨other, hother, hcolumn⟩ := hbecomes column hcolumn
            exact ⟨other, List.mem_cons_of_mem _ hother, hcolumn⟩
      · next hfree =>
          obtain ⟨e, he, h⟩ := bind_eq_ok.mp h
          obtain ⟨rest, hrest, h⟩ := bind_eq_ok.mp h
          cases h
          rw [List.contains_iff_mem] at hfree
          obtain ⟨names, hname, hnodup, hmem, hbecomes⟩ := ih hrest
          refine ⟨item.expression.sortName :: names, ?_, ?_, fun name => ?_, ?_⟩
          · rw [List.map_cons, List.map_cons, hname]
          · refine List.nodup_cons.mpr ⟨fun hagain => ?_, hnodup⟩
            exact ((hmem _).mp hagain).1 (List.mem_append_right _ List.mem_cons_self)
          · rw [List.mem_cons, hmem, List.mem_append, List.mem_singleton,
              List.exists_mem_cons_iff]
            by_cases hself : name = item.expression.sortName
            · subst hself
              simp [hfree]
            · simp [hself, Ne.symm hself]
          · refine List.forall_mem_cons.mpr ⟨⟨item, List.mem_cons_self, rfl, he⟩, ?_⟩
            intro column hcolumn
            obtain ⟨other, hother, hcolumn⟩ := hbecomes column hcolumn
            exact ⟨other, List.mem_cons_of_mem _ hother, hcolumn⟩

/-- Names of hidden columns are neither taken nor repeated. -/
theorem HiddenColumns.nodup_append {scope : Schema} {taken names : List String}
    {items : List OrderItem} {columns : List Column}
    (h : HiddenColumns scope taken items columns names) (htaken : taken.Nodup) :
    (taken ++ names).Nodup := by
  refine List.nodup_append.mpr ⟨htaken, h.nodup, ?_⟩
  rintro name hname _ hagain rfl
  exact ((h.mem_names name).mp hagain).1 hname

/-- A sort key has the order asked for and points to the last field of the name. -/
structure OrderItem.FoundIn (schema : Schema) (item : OrderItem) (key : SortKey) : Prop where
  order : key.order = item.order
  index : schema.indexOf? item.expression.sortName = some key.index

theorem sortKeys_eq_ok {schema : Schema} {items : List OrderItem} {keys : List SortKey} :
    sortKeys schema items = .ok keys ↔ List.Forall₂ (OrderItem.FoundIn schema) items keys := by
  induction items generalizing keys with
  | nil =>
      rw [List.forall₂_nil_left_iff, sortKeys, Except.ok.injEq]
      exact eq_comm
  | cons item items ih =>
      rw [List.forall₂_cons_left_iff, sortKeys]
      constructor
      · intro h
        split at h
        · next index hindex =>
            obtain ⟨rest, hrest, h⟩ := bind_eq_ok.mp h
            cases h
            exact ⟨_, rest, ⟨rfl, hindex⟩, ih.mp hrest, rfl⟩
        · cases h
      · rintro ⟨⟨index, order⟩, rest, ⟨rfl, hindex⟩, hrest, rfl⟩
        rw [hindex]
        dsimp only
        rw [ih.mpr hrest]
        rfl

namespace Projection

variable {p : Projection} {scope : Schema} {input plan : Plan} {columns : List Column}

/-! ## Shapes of projections -/

/-- The projection as it is without sorting. -/
def unsorted (p : Projection) : Projection := { p with orderBy := [], skip := none, limit := none }

/-- The rest of a projection without aggregates, once its columns are known. -/
def arrange (p : Projection) (input : Plan) (columns : List Column) : Except Error Plan :=
  if p.isSorted then do
    let hidden ← hiddenColumns input.schema (p.names input.schema) p.orderBy
    let project ← Plan.projectColumns input (columns ++ hidden)
    let sorted ← p.sort project
    if hidden.isEmpty then return sorted else visible (p.names input.schema).length sorted
  else Plan.projectColumns input columns

theorem toPlan_eq_ok (hplain : p.items.any (·.expression.containsAggregate) = false) :
    p.toPlan input = .ok plan ↔
      p.names input.schema ≠ [] ∧ (p.names input.schema).Nodup ∧
        ∃ columns, p.columns input.schema = .ok columns ∧ p.arrange input columns = .ok plan := by
  unfold toPlan
  simp only [hplain, bind_eq_ok, require_eq_ok, Bool.false_eq_true, if_false]
  constructor
  · rintro ⟨_, hsome, _, hnodup, h⟩
    refine ⟨fun hnone => ?_, (duplicateNames_eq_nil_iff _).mp (List.isEmpty_iff.mp hnodup), h⟩
    rw [hnone] at hsome
    cases hsome
  · rintro ⟨hsome, hnodup, h⟩
    refine ⟨(), ?_, (), List.isEmpty_iff.mpr ((duplicateNames_eq_nil_iff _).mpr hnodup), h⟩
    rw [List.isEmpty_eq_false_iff.mpr hsome]
    rfl

/-- A projection that neither groups nor sorts computes its columns. -/
theorem toPlan_eq_projecting (hplain : p.items.any (·.expression.containsAggregate) = false)
    (hunsorted : p.isSorted = false) (h : p.toPlan input = .ok plan) :
    ∃ columns, p.columns input.schema = .ok columns ∧ plan = input.projecting columns := by
  obtain ⟨-, -, columns, hcolumns, h⟩ := (toPlan_eq_ok hplain).mp h
  rw [arrange, hunsorted] at h
  exact ⟨columns, hcolumns, (Plan.yields_projectColumns _ _).result h⟩

/-- The columns asked for have the names asked for. -/
theorem name_columns (h : p.columns scope = .ok columns) :
    columns.map Column.name = (p.names scope).map some := by
  obtain ⟨items, hitems, h⟩ := bind_eq_ok.mp h
  cases h
  rw [List.map_append, name_starColumns, name_itemColumns (itemColumns_eq_ok.mp hitems), names,
    List.map_append]

theorem length_fields (h : p.columns scope = .ok columns) :
    (Column.fields columns).length = (p.names scope).length := by
  rw [← Column.names_fields (name_columns h), Schema.names, List.length_map]

/-- Sorting puts one node on the plan. -/
theorem sort_eq_sorting {sorted : Plan} (h : p.sort input = .ok sorted) :
    ∃ keys offset limit, List.Forall₂ (OrderItem.FoundIn input.schema) p.orderBy keys ∧
      rowCount? "SKIP" p.skip = .ok offset ∧ rowCount? "LIMIT" p.limit = .ok limit ∧
      sorted = input.sorting keys offset limit := by
  obtain ⟨keys, hkeys, h⟩ := bind_eq_ok.mp h
  obtain ⟨offset, hoffset, h⟩ := bind_eq_ok.mp h
  obtain ⟨limit, hlimit, h⟩ := bind_eq_ok.mp h
  have hsorted := (Plan.yields_sort _ _ _ _).result h
  exact ⟨keys, offset, limit, sortKeys_eq_ok.mp hkeys, hoffset, hlimit, hsorted⟩

/-- What a sorted projection comes to: its columns and the hidden ones are computed, with no two of
one name, and sorted; then the hidden columns are taken away, if there are any. -/
structure SortedAs (p : Projection) (input plan : Plan) (columns hidden : List Column)
    (hiddenNames : List String) (keys : List SortKey) (offset limit : Option Nat) : Prop where
  lowered : p.columns input.schema = .ok columns
  hides : HiddenColumns input.schema (p.names input.schema) p.orderBy hidden hiddenNames
  nodup : (p.names input.schema ++ hiddenNames).Nodup
  accepted : checkRefs input.schema ((columns ++ hidden).map Column.expr) = .ok ()
  found : List.Forall₂ (OrderItem.FoundIn (Column.fields (columns ++ hidden))) p.orderBy keys
  skips : rowCount? "SKIP" p.skip = .ok offset
  keeps : rowCount? "LIMIT" p.limit = .ok limit
  shape :
    let sorted := (input.projecting (columns ++ hidden)).sorting keys offset limit
    plan = if hidden.isEmpty then sorted else sorted.projecting (Column.again columns)

theorem exists_sortedAs (hplain : p.items.any (·.expression.containsAggregate) = false)
    (hsorted : p.isSorted = true) (h : p.toPlan input = .ok plan) :
    ∃ columns hidden hiddenNames keys offset limit,
      p.SortedAs input plan columns hidden hiddenNames keys offset limit := by
  obtain ⟨-, hnodup, columns, hcolumns, h⟩ := (toPlan_eq_ok hplain).mp h
  rw [arrange, if_pos hsorted] at h
  obtain ⟨hidden, hhidden, h⟩ := bind_eq_ok.mp h
  obtain ⟨project, hproject, h⟩ := bind_eq_ok.mp h
  obtain ⟨sorted, hsort, h⟩ := bind_eq_ok.mp h
  obtain ⟨hiddenNames, hhidden⟩ := hiddenColumns_eq_ok hhidden
  obtain ⟨haccepted, rfl⟩ := Plan.projectColumns_eq_ok.mp hproject
  obtain ⟨keys, offset, limit, hkeys, hoffset, hlimit, rfl⟩ := sort_eq_sorting hsort
  refine ⟨columns, hidden, hiddenNames, keys, offset, limit, hcolumns, hhidden,
    hhidden.nodup_append hnodup, haccepted, hkeys, hoffset, hlimit, ?_⟩
  split at h
  · next hnone =>
      cases h
      exact (if_pos hnone).symm
  · next hsome =>
      -- The columns asked for are the first fields of the plan that is sorted.
      have hfirst : (Column.fields (columns ++ hidden)).take (p.names input.schema).length =
          Column.fields columns := by
        rw [Column.fields_append, ← length_fields hcolumns, List.take_left]
      have hplan := (Plan.yields_projectColumns _ _).result h
      rw [Plan.sorting] at hplan
      dsimp only at hplan
      rw [hfirst, starColumns_fields (name_columns hcolumns)] at hplan
      exact hplan.trans (if_neg hsome).symm

namespace SortedAs

variable {hidden : List Column} {hiddenNames : List String} {keys : List SortKey}
  {offset limit : Option Nat}

/-- The names of all columns that are computed. -/
theorem name_columns (h : p.SortedAs input plan columns hidden hiddenNames keys offset limit) :
    (columns ++ hidden).map Column.name = (p.names input.schema ++ hiddenNames).map some := by
  rw [List.map_append, Projection.name_columns h.lowered, h.hides.name, List.map_append]

/-- A sort key points to the one column that has the name. -/
theorem index_eq_iff (h : p.SortedAs input plan columns hidden hiddenNames keys offset limit)
    {item : OrderItem} {key : SortKey}
    (hkey : item.FoundIn (Column.fields (columns ++ hidden)) key) (i : Nat) :
    (p.names input.schema ++ hiddenNames)[i]? = some item.expression.sortName ↔
      i = key.index := by
  have hnames := Column.names_fields h.name_columns
  have hdistinct : (Schema.names (Column.fields (columns ++ hidden))).Nodup := by
    rw [hnames]
    exact h.nodup
  rw [← hnames, ← Schema.indexOf?_eq_some_of_nodup hdistinct, hkey.index, Option.some.injEq]
  exact eq_comm

/-- Without sorting, the columns asked for are accepted as well. -/
theorem toPlan_unsorted (h : p.SortedAs input plan columns hidden hiddenNames keys offset limit)
    (hplain : p.items.any (·.expression.containsAggregate) = false)
    (hsome : p.names input.schema ≠ []) :
    p.unsorted.toPlan input = .ok (input.projecting columns) := by
  have haccepted : checkRefs input.schema (columns.map Column.expr) = .ok () := by
    have hall := h.accepted
    rw [List.map_append, checkRefs, Expr.refsAll_append, checkAll_append] at hall
    obtain ⟨_, hcolumns, -⟩ := bind_eq_ok.mp hall
    exact hcolumns
  have hnodup : (p.names input.schema).Nodup := (List.nodup_append.mp h.nodup).1
  refine (toPlan_eq_ok (p := p.unsorted) hplain).mpr ⟨hsome, hnodup, columns, h.lowered, ?_⟩
  exact Plan.projectColumns_eq_ok.mpr ⟨haccepted, rfl⟩

end SortedAs

/-- **Hidden columns leave no trace.** A sorted projection that has a plan has one without sorting
too, which computes some columns from the input. The sorted plan computes the same columns, followed
by hidden ones; no two of them have one name; each sort key has the order asked for and points to
the one column that has the name; and exactly if there are hidden columns, the columns asked for
follow once more, as references. So it has the fields of the plan without sorting. -/
theorem sorted_projection_keeps_fields (p : Projection) (input plan : Plan)
    (hplain : p.items.any (·.expression.containsAggregate) = false) (hsorted : p.isSorted = true)
    (h : p.toPlan input = .ok plan) :
    ∃ columns hidden hiddenNames keys offset limit,
      p.unsorted.toPlan input = .ok (input.projecting columns) ∧
      columns.map Column.name = (p.names input.schema).map some ∧
      HiddenColumns input.schema (p.names input.schema) p.orderBy hidden hiddenNames ∧
      (p.names input.schema ++ hiddenNames).Nodup ∧
      List.Forall₂ (fun item key => key.order = item.order ∧ ∀ i,
        (p.names input.schema ++ hiddenNames)[i]? = some item.expression.sortName ↔
          i = key.index) p.orderBy keys ∧
      rowCount? "SKIP" p.skip = .ok offset ∧ rowCount? "LIMIT" p.limit = .ok limit ∧
      (let sorted := (input.projecting (columns ++ hidden)).sorting keys offset limit
       plan = if hidden.isEmpty then sorted else sorted.projecting (Column.again columns)) ∧
      plan.schema = (input.projecting columns).schema := by
  obtain ⟨columns, hidden, hiddenNames, keys, offset, limit, hplan⟩ :=
    exists_sortedAs hplain hsorted h
  obtain ⟨hsome, -⟩ := (toPlan_eq_ok hplain).mp h
  refine ⟨columns, hidden, hiddenNames, keys, offset, limit, hplan.toPlan_unsorted hplain hsome,
    name_columns hplan.lowered, hplan.hides, hplan.nodup, ?_, hplan.skips, hplan.keeps,
    hplan.shape, ?_⟩
  · exact hplan.found.imp fun item key hkey => ⟨hkey.order, hplan.index_eq_iff hkey⟩
  · rw [hplan.shape]
    split
    · next hnone =>
        rw [List.isEmpty_iff.mp hnone, List.append_nil]
        rfl
    · exact Column.fields_again (name_columns hplan.lowered)

/-- What the catalog says of the properties that nodes have. -/
def nodeProperties : Plan :=
  ⟨none, .call ⟨⟨0⟩, "db.schema.nodeTypeProperties", [], true, []⟩, [],
    [⟨"nodeType", .string⟩, ⟨"propertyName", .string⟩, ⟨"propertyTypes", .list .string⟩], .graph⟩

/-- `RETURN nodeType AS kind ORDER BY propertyName, kind DESC, propertyName DESC LIMIT 10`. -/
def kinds : Projection :=
  ⟨false, false, [⟨.var "nodeType", some "kind", none⟩],
    [⟨.var "propertyName", .ascending⟩, ⟨.var "kind", .descending⟩,
      ⟨.var "propertyName", .descending⟩], none, some (.literal (.integer 10))⟩

/-- One hidden column serves two sort keys, and is taken away. -/
theorem kinds_keeps_fields : ∃ plan, kinds.toPlan nodeProperties = .ok plan ∧
    plan.fingerprint = "Project[GRAPH](\"kind\"=$0)" ++
      "[Sort[GRAPH]($1 ASC, $0 DESC, $1 DESC, limit=10)" ++
      "[Project[GRAPH](\"kind\"=$0, \"propertyName\"=$1)" ++
      "[Call[GRAPH](ns0 db.schema.nodeTypeProperties() YIELD *)]]]" ∧
    ∃ columns, kinds.unsorted.toPlan nodeProperties = .ok (nodeProperties.projecting columns) ∧
      plan.schema = (nodeProperties.projecting columns).schema := by
  have hplan : (kinds.toPlan nodeProperties).toOption.map Plan.fingerprint =
      some ("Project[GRAPH](\"kind\"=$0)" ++
        "[Sort[GRAPH]($1 ASC, $0 DESC, $1 DESC, limit=10)" ++
        "[Project[GRAPH](\"kind\"=$0, \"propertyName\"=$1)" ++
        "[Call[GRAPH](ns0 db.schema.nodeTypeProperties() YIELD *)]]]") := by decide +kernel
  obtain ⟨plan, hplan, htext⟩ := toOption_map_eq_some.mp hplan
  obtain ⟨columns, _, _, _, _, _, hunsorted, -, -, -, -, -, -, -, hschema⟩ :=
    sorted_projection_keeps_fields kinds nodeProperties plan rfl rfl hplan
  exact ⟨plan, hplan, htext, columns, hunsorted, hschema⟩

end Projection

end QueryPlan
