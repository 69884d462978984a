import QueryPlan.Proofs.Lowering.Projection

/-!
# Sorting by text

A sort expression is looked for by its text among the names of the columns. A name that the star or
`AS` gives to a column is meant to be found. All other columns go by the text of what they compute,
and texts do not tell all expressions apart: a text has no parentheses.

So `ORDER BY` sorts by what it says exactly where expressions of one text are lowered alike.
-/

namespace QueryPlan

theorem Expression.sortName_eq_text (e : Expression) : e.sortName = e.text := by
  cases e with
  | var name => rw [sortName, text]
  | property name key => rw [sortName, text]
  | _ => rw [sortName] <;> nofun

namespace Projection

/-- The column at the position shows a field of the star, or an item that `AS` names, under the
name. -/
def Shows (p : Projection) (scope : Schema) (name : String) (i : Nat) : Prop :=
  (p.starFields scope).names[i]? = some name ∨
    ∃ j item, i = (p.starFields scope).length + j ∧ p.items[j]? = some item ∧
      item.asName = some name

/-- The expressions whose columns go by their text. -/
def textual (p : Projection) : List Expression :=
  (p.items.filter (·.asName.isNone)).map ReturnItem.expression ++
    p.orderBy.map OrderItem.expression

/-- A sort key sorts by what the item of `ORDER BY` says: by a column that shows its name, or by its
expression. -/
structure SortsBy (p : Projection) (scope : Schema) (columns : List Column) (item : OrderItem)
    (key : SortKey) : Prop where
  order : key.order = item.order
  column : ∃ column, columns[key.index]? = some column ∧
    (p.Shows scope item.expression.sortName key.index ∨
      item.expression.toExpr scope = .ok column.expr)

/-- Where no column shows the name of a sort expression, all expressions of its text are lowered
alike. -/
def TextsTellApart (p : Projection) (scope : Schema) : Prop :=
  ∀ item ∈ p.orderBy, (∀ i, ¬p.Shows scope item.expression.sortName i) →
    ∀ e ∈ p.textual, e.text = item.expression.text →
      e.toExpr scope = item.expression.toExpr scope

variable {p : Projection} {scope : Schema} {input plan : Plan} {columns hidden : List Column}
  {hiddenNames : List String} {keys : List SortKey} {offset limit : Option Nat}

/-- What shows a name has this name. -/
theorem Shows.getElem?_names {name : String} {i : Nat} (h : p.Shows scope name i) :
    (p.names scope)[i]? = some name := by
  rcases h with hstar | ⟨j, item, rfl, hitem, has⟩
  · obtain ⟨hi, -⟩ := List.getElem?_eq_some_iff.mp hstar
    rw [names, List.getElem?_append_left hi, hstar]
  · have hlength : (p.starFields scope).names.length = (p.starFields scope).length :=
      List.length_map _
    rw [names, ← hlength, List.getElem?_append_right (Nat.le_add_right _ _),
      Nat.add_sub_cancel_left, List.getElem?_map, hitem, Option.map_some, ReturnItem.name, has,
      Option.getD_some]

namespace SortedAs

/-- No two columns have one name. -/
theorem position_unique (h : p.SortedAs input plan columns hidden hiddenNames keys offset limit)
    {i j : Nat} {a b : Column} (ha : (columns ++ hidden)[i]? = some a)
    (hb : (columns ++ hidden)[j]? = some b) (hname : a.name = b.name) : i = j := by
  have hnodup : ((columns ++ hidden).map Column.name).Nodup := by
    rw [h.name_columns]
    exact h.nodup.map fun _ _ => Option.some.inj
  have hi : ((columns ++ hidden).map Column.name)[i]? = some a.name := by
    rw [List.getElem?_map, ha, Option.map_some]
  have hj : ((columns ++ hidden).map Column.name)[j]? = some a.name := by
    rw [List.getElem?_map, hb, Option.map_some, hname]
  obtain ⟨hlt, -⟩ := List.getElem?_eq_some_iff.mp hi
  exact (List.getElem?_inj hlt hnodup).mp (hi.trans hj.symm)

/-- A sort key points to a column of the name. -/
theorem column_at (h : p.SortedAs input plan columns hidden hiddenNames keys offset limit)
    {item : OrderItem} {key : SortKey}
    (hkey : item.FoundIn (Column.fields (columns ++ hidden)) key) :
    ∃ column, (columns ++ hidden)[key.index]? = some column ∧
      column.name = some item.expression.sortName := by
  have hname := (h.index_eq_iff hkey key.index).mpr rfl
  have hcolumn : ((columns ++ hidden).map Column.name)[key.index]? =
      some (some item.expression.sortName) := by
    rw [h.name_columns, List.getElem?_map, hname, Option.map_some]
  rw [List.getElem?_map] at hcolumn
  exact Option.map_eq_some_iff.mp hcolumn

/-- A column shows its name, or it computes an expression whose text is its name. -/
theorem source (h : p.SortedAs input plan columns hidden hiddenNames keys offset limit) {i : Nat}
    {column : Column} {name : String} (hcolumn : (columns ++ hidden)[i]? = some column)
    (hname : column.name = some name) :
    p.Shows input.schema name i ∨
      ∃ e ∈ p.textual, e.text = name ∧ e.toExpr input.schema = .ok column.expr := by
  obtain ⟨lowered, hitems, hcolumns⟩ := bind_eq_ok.mp h.lowered
  cases hcolumns
  rcases getElem?_append_cases hcolumn with hvisible | ⟨j, rfl, hhidden⟩
  · rcases getElem?_append_cases hvisible with hstar | ⟨j, rfl, hitem⟩
    · -- A field of the star.
      rw [getElem?_starColumns] at hstar
      obtain ⟨field, hfield, rfl⟩ := Option.map_eq_some_iff.mp hstar
      refine Or.inl (Or.inl ?_)
      rw [Schema.names, List.getElem?_map, hfield]
      exact hname
    · -- An item, with or without a name of its own.
      have hbecomes := (itemColumns_eq_ok.mp hitems).flip
      obtain ⟨item, hitem, hcomputes⟩ := exists_getElem?_of_forall₂ hbecomes hitem
      have hitemName : item.name = name :=
        Option.some.inj (hcomputes.name.symm.trans hname)
      cases has : item.asName with
      | some asName =>
          rw [ReturnItem.name, has, Option.getD_some] at hitemName
          subst hitemName
          exact Or.inl (Or.inr ⟨j, item, by rw [length_starColumns], hitem, has⟩)
      | none =>
          rw [ReturnItem.name, has, Option.getD_none] at hitemName
          refine Or.inr ⟨item.expression, List.mem_append_left _ ?_, hitemName, hcomputes.expr⟩
          refine List.mem_map_of_mem (List.mem_filter.mpr ⟨List.mem_of_getElem? hitem, ?_⟩)
          rw [has]
          rfl
  · -- A hidden column.
    obtain ⟨item, hitem, hcomputes⟩ := h.hides.becomes column (List.mem_of_getElem? hhidden)
    have htext : item.expression.text = name := by
      rw [← item.expression.sortName_eq_text]
      exact Option.some.inj (hcomputes.name.symm.trans hname)
    exact Or.inr ⟨item.expression, List.mem_append_right _ (List.mem_map_of_mem hitem), htext,
      hcomputes.expr⟩

/-- Where texts tell expressions apart, a sort key sorts by what the item says. -/
theorem sortsBy (h : p.SortedAs input plan columns hidden hiddenNames keys offset limit)
    (happart : p.TextsTellApart input.schema) {item : OrderItem} {key : SortKey}
    (hitem : item ∈ p.orderBy) (hkey : item.FoundIn (Column.fields (columns ++ hidden)) key) :
    p.SortsBy input.schema (columns ++ hidden) item key := by
  obtain ⟨column, hcolumn, hname⟩ := h.column_at hkey
  refine ⟨hkey.order, column, hcolumn, ?_⟩
  by_cases hshown : ∃ i, p.Shows input.schema item.expression.sortName i
  · left
    obtain ⟨i, hi⟩ := hshown
    obtain ⟨hlt, -⟩ := List.getElem?_eq_some_iff.mp hi.getElem?_names
    have hindex : i = key.index := by
      rw [← h.index_eq_iff hkey, List.getElem?_append_left hlt, hi.getElem?_names]
    rwa [← hindex]
  · right
    have hunshown := not_exists.mp hshown
    rcases h.source hcolumn hname with hshows | ⟨e, he, htext, hexpr⟩
    · exact absurd hshows (hunshown _)
    · rw [item.expression.sortName_eq_text] at htext
      rw [← happart item hitem hunshown e he htext, hexpr]

/-- Where all items sort by what they say, all expressions whose text is the name of a column are
lowered to what the column computes, unless the column shows the name. -/
theorem toExpr_of_sortsBy
    (h : p.SortedAs input plan columns hidden hiddenNames keys offset limit)
    (hsorts : List.Forall₂ (p.SortsBy input.schema (columns ++ hidden)) p.orderBy keys)
    {i : Nat} {column : Column} {name : String}
    (hcolumn : (columns ++ hidden)[i]? = some column) (hname : column.name = some name)
    (hunshown : ∀ j, ¬p.Shows input.schema name j) {e : Expression} (he : e ∈ p.textual)
    (htext : e.text = name) : e.toExpr input.schema = .ok column.expr := by
  rcases List.mem_append.mp he with he | he
  · -- The item has a column of this name, which is the one.
    obtain ⟨item, hitem, rfl⟩ := List.mem_map.mp he
    obtain ⟨hitem, hunnamed⟩ := List.mem_filter.mp hitem
    obtain ⟨j, hj⟩ := List.mem_iff_getElem?.mp hitem
    obtain ⟨lowered, hitems, hcolumns⟩ := bind_eq_ok.mp h.lowered
    cases hcolumns
    obtain ⟨own, hown, hcomputes⟩ := exists_getElem?_of_forall₂ (itemColumns_eq_ok.mp hitems) hj
    have hownName : own.name = some name := by
      rw [hcomputes.name, ReturnItem.name, Option.isNone_iff_eq_none.mp hunnamed, Option.getD_none,
        htext]
    have hownAt : (starColumns (p.starFields input.schema) ++ lowered ++ hidden)[
        (starColumns (p.starFields input.schema)).length + j]? = some own := by
      obtain ⟨hlt, -⟩ := List.getElem?_eq_some_iff.mp hown
      rw [List.append_assoc, List.getElem?_append_right (Nat.le_add_right _ _),
        Nat.add_sub_cancel_left, List.getElem?_append_left hlt, hown]
    obtain rfl := h.position_unique hcolumn hownAt (hname.trans hownName.symm)
    obtain rfl : own = column := Option.some.inj (hownAt.symm.trans hcolumn)
    exact hcomputes.expr
  · -- The sort key of the item points to a column of this name.
    obtain ⟨item, hitem, rfl⟩ := List.mem_map.mp he
    obtain ⟨j, hj⟩ := List.mem_iff_getElem?.mp hitem
    obtain ⟨key, hkeyAt, hkey⟩ := exists_getElem?_of_forall₂ h.found hj
    obtain ⟨other, hother, hsortsBy⟩ := exists_getElem?_of_forall₂ hsorts hj
    obtain rfl : key = other := Option.some.inj (hkeyAt.symm.trans hother)
    obtain ⟨found, hfound, hfoundName⟩ := h.column_at hkey
    rw [item.expression.sortName_eq_text, htext] at hfoundName
    obtain rfl := h.position_unique hcolumn hfound (hname.trans hfoundName.symm)
    obtain ⟨sorted, hsorted, hshows | hexpr⟩ := hsortsBy.column
    · rw [item.expression.sortName_eq_text, htext] at hshows
      exact absurd hshows (hunshown _)
    · obtain rfl : sorted = column := Option.some.inj (hsorted.symm.trans hcolumn)
      exact hexpr

/-- Where all items sort by what they say, texts tell expressions apart. -/
theorem textsTellApart (h : p.SortedAs input plan columns hidden hiddenNames keys offset limit)
    (hsorts : List.Forall₂ (p.SortsBy input.schema (columns ++ hidden)) p.orderBy keys) :
    p.TextsTellApart input.schema := by
  intro item hitem hunshown e he htext
  obtain ⟨i, hi⟩ := List.mem_iff_getElem?.mp hitem
  obtain ⟨key, -, hkey⟩ := exists_getElem?_of_forall₂ h.found hi
  obtain ⟨column, hcolumn, hname⟩ := h.column_at hkey
  have hown : item.expression ∈ p.textual := List.mem_append_right _ (List.mem_map_of_mem hitem)
  have hsame : ∀ e ∈ p.textual, e.text = item.expression.text →
      e.toExpr input.schema = .ok column.expr := by
    intro e he htext
    rw [← item.expression.sortName_eq_text] at htext
    exact h.toExpr_of_sortsBy hsorts hcolumn hname hunshown he htext
  rw [hsame e he htext, hsame item.expression hown rfl]

end SortedAs

/-- **Sorting by what is said.** A projection without aggregates that is sorted computes columns and
sorts them by keys, one for each item of `ORDER BY`. All keys sort by what their items say if and
only if the projection has no two expressions of one text that are lowered differently, one of them
a sort expression whose name no column shows. -/
theorem sorts_as_written_iff (p : Projection) (input plan : Plan)
    (hplain : p.items.any (·.expression.containsAggregate) = false) (hordered : p.orderBy ≠ [])
    (h : p.toPlan input = .ok plan) :
    ∃ columns keys offset limit,
      (let sorted := (input.projecting columns).sorting keys offset limit
       plan = sorted ∨ ∃ visible, plan = sorted.projecting visible) ∧
      (List.Forall₂ (p.SortsBy input.schema columns) p.orderBy keys ↔
        p.TextsTellApart input.schema) := by
  have hsorted : p.isSorted = true := by
    rw [isSorted, List.isEmpty_eq_false_iff.mpr hordered]
    rfl
  obtain ⟨columns, hidden, hiddenNames, keys, offset, limit, hplan⟩ :=
    exists_sortedAs hplain hsorted h
  refine ⟨columns ++ hidden, keys, offset, limit, ?_, hplan.textsTellApart, fun happart => ?_⟩
  · have hshape := hplan.shape
    split at hshape
    · exact Or.inl hshape
    · exact Or.inr ⟨_, hshape⟩
  · have hfound := (List.forall₂_and_left _ _).mpr ⟨fun item hitem => hitem, hplan.found⟩
    exact hfound.imp fun item key hkey => hplan.sortsBy happart hkey.1 hkey.2

/-- A hidden column serves both items that ask for it, and `kind` is a name given by `AS`. -/
theorem kinds_sorts_as_written : ∃ plan columns keys offset limit,
    kinds.toPlan nodeProperties = .ok plan ∧
    (let sorted := (nodeProperties.projecting columns).sorting keys offset limit
     plan = sorted ∨ ∃ visible, plan = sorted.projecting visible) ∧
    List.Forall₂ (kinds.SortsBy nodeProperties.schema columns) kinds.orderBy keys := by
  -- All expressions that go by their text are variables, which are told apart.
  have hvars : ∀ e ∈ kinds.textual, e = .var e.text := by
    have htextual : kinds.textual = [.var "propertyName", .var "kind", .var "propertyName"] := rfl
    rw [htextual]
    intro e he
    simp only [List.mem_cons, List.not_mem_nil, or_false] at he
    rcases he with rfl | rfl | rfl
    all_goals rfl
  have happart : kinds.TextsTellApart nodeProperties.schema := by
    intro item hitem _ e he htext
    have hown : item.expression ∈ kinds.textual :=
      List.mem_append_right _ (List.mem_map_of_mem hitem)
    rw [hvars e he, htext, ← hvars item.expression hown]
  have hplan : (kinds.toPlan nodeProperties).toOption.map Plan.schema =
      some [⟨"kind", .string⟩] := by decide +kernel
  obtain ⟨plan, hplan, -⟩ := toOption_map_eq_some.mp hplan
  obtain ⟨columns, keys, offset, limit, hshape, hiff⟩ :=
    sorts_as_written_iff kinds nodeProperties plan rfl (List.cons_ne_nil _ _) hplan
  exact ⟨plan, columns, keys, offset, limit, hplan, hshape, hiff.mpr happart⟩

/-- One row with a node. -/
def oneNode : Plan :=
  ⟨none, .values ⟨[⟨[], [], some "n", none, false⟩], [], [], []⟩, [], [⟨"n", .node⟩], .graph⟩

/-- `(n.a + n.b) * n.c`. -/
def productOfSum : Expression :=
  .binary (.binary (.property "n" "a") .add (.property "n" "b")) .mul (.property "n" "c")

/-- `RETURN n.a + n.b * n.c ORDER BY (n.a + n.b) * n.c`. -/
def ungrouped : Projection :=
  ⟨false, false, [⟨.binary (.property "n" "a") .add
      (.binary (.property "n" "b") .mul (.property "n" "c")), none, none⟩],
    [⟨productOfSum, .ascending⟩], none, none⟩

/-- Without parentheses a product of a sum reads as a sum with a product, and the rows are sorted by
the latter. -/
theorem ungrouped_sorts_by_another : ∃ column lowered,
    ungrouped.toPlan oneNode =
      .ok ((oneNode.projecting [column]).sorting [⟨0, .ascending⟩] none none) ∧
    column.expr.text = "+(EXTRACT_PROPERTY($0, \"a\"), " ++
      "*(EXTRACT_PROPERTY($0, \"b\"), EXTRACT_PROPERTY($0, \"c\")))" ∧
    productOfSum.toExpr oneNode.schema = .ok lowered ∧
    lowered.text = "*(+(EXTRACT_PROPERTY($0, \"a\"), EXTRACT_PROPERTY($0, \"b\")), " ++
      "EXTRACT_PROPERTY($0, \"c\"))" ∧
    ¬ungrouped.SortsBy oneNode.schema [column] ⟨productOfSum, .ascending⟩ ⟨0, .ascending⟩ := by
  let property (key : String) : Expr :=
    .apply .extractProperty [.ref 0 .node, .ofValue (.string key)] .any
  refine ⟨⟨some "n.a + n.b * n.c",
    .apply .add [property "a", .apply .mul [property "b", property "c"] .any] .any⟩,
    .apply .mul [.apply .add [property "a", property "b"] .any, property "c"] .any,
    rfl, by decide +kernel, rfl, by decide +kernel, ?_⟩
  rintro ⟨-, column, hcolumn, hshows | hexpr⟩
  · rcases hshows with hstar | ⟨j, item, hj, hitem, has⟩
    · cases hstar
    · obtain rfl := List.mem_singleton.mp (List.mem_of_getElem? hitem)
      cases has
  · cases hcolumn
    cases hexpr

end Projection

end QueryPlan
