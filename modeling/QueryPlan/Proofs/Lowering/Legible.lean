import QueryPlan.Proofs.Lowering.Grouping
import QueryPlan.Proofs.Lowering.PlainNames
import QueryPlan.Proofs.Lowering.Updates
import QueryPlan.Proofs.Plan.Fingerprints

/-!
# Legible plans

A plan is legible if its names can be read off and its fields have titles. What a plain clause puts
into a plan comes from the clause, or is made up, or stands in the plan already, so projections,
matches and writes over a legible plan are legible.
-/

namespace QueryPlan

open Text

/-! ## Legible plans -/

/-- The expression can be read off, and the name is a title. -/
structure Column.Legible (c : Column) : Prop where
  name : ∀ name ∈ c.name, isTitle name = true
  expr : c.expr.Readable

theorem Column.legible {c : Column} {name : String} (hname : c.name = some name)
    (htitle : isTitle name = true) (hexpr : c.expr.Readable) : c.Legible := by
  refine ⟨?_, hexpr⟩
  rw [hname]
  rintro _ ⟨⟩
  exact htitle

namespace Plan

/-- The names in the plan can be read off, and its fields have titles. -/
structure Legible (catalog : Catalog) (p : Plan) : Prop where
  readable : p.Readable catalog
  titles : ∀ f ∈ p.schema, isTitle f.name = true

variable {catalog : Catalog} {p q input : Plan} {op : Op} {tag : Option Nat} {schema : Schema}
  {model : Model} {columns : List Column}

theorem readable_node {inputs : List Plan} (hop : op.Readable catalog)
    (htitles : op.isTransform = true → ∀ f ∈ schema, isTitle f.name = true)
    (hinputs : ∀ input ∈ inputs, input.Readable catalog) :
    Readable catalog ⟨tag, op, inputs, schema, model⟩ := by
  intro n hn
  cases hn with
  | self => exact ⟨hop, htitles⟩
  | input hn hinput => exact hinputs _ hinput n hn

theorem legible_leaf (hop : op.Readable catalog) (htitles : ∀ f ∈ schema, isTitle f.name = true) :
    Legible catalog ⟨tag, op, [], schema, model⟩ :=
  ⟨readable_node hop (fun _ => htitles) (List.forall_mem_nil _), htitles⟩

theorem titles_fields (h : ∀ c ∈ columns, c.Legible) :
    ∀ f ∈ Column.fields columns, isTitle f.name = true := by
  intro f hf
  obtain ⟨c, hc, hfield⟩ := List.mem_filterMap.mp hf
  obtain ⟨name, hname, rfl⟩ := Option.map_eq_some_iff.mp hfield
  exact (h c hc).name name hname

theorem Readable.reads (h : input.Readable catalog) (hop : op.Readable catalog)
    (htitles : ∀ f ∈ schema, isTitle f.name = true) :
    Legible catalog ⟨tag, op, [input], schema, model⟩ :=
  ⟨readable_node hop (fun _ => htitles) (List.forall_mem_singleton.mpr h), htitles⟩

theorem Readable.projecting (h : input.Readable catalog) (hcolumns : ∀ c ∈ columns, c.Legible) :
    (input.projecting columns).Legible catalog :=
  h.reads (fun c hc => (hcolumns c hc).expr) (titles_fields hcolumns)

theorem Readable.modify {entity : Entity} {write : Write} {targets : List Binding}
    (h : input.Readable catalog) (hentity : entity.KnownTo catalog)
    (htargets : ∀ t ∈ targets, t.Readable) : Legible catalog
      ⟨tag, .modify entity write targets, [input], .single "ROWCOUNT" .int64, model⟩ :=
  h.reads ⟨hentity, htargets⟩ (List.forall_mem_singleton.mpr (by decide))

theorem Readable.unwind {index : Nat} {asName : String} (h : input.Readable catalog)
    (hname : isPlain asName = true) (hp : Plan.unwind input index asName = .ok p) :
    p.Legible catalog := by
  obtain ⟨ty, rfl⟩ := (yields_unwind input index asName).result hp
  exact h.reads hname (List.forall_mem_singleton.mpr (isTitle_of_isPlain hname))

namespace Legible

theorem sorting (h : input.Legible catalog) (keys : List SortKey) (offset limit : Option Nat) :
    (input.sorting keys offset limit).Legible catalog := h.readable.reads trivial h.titles

/-- A condition is lowered over the plan that it filters. -/
theorem restrictBy {condition : Option Expression} (h : p.Legible catalog)
    (hcondition : Expression.optionPlain condition = true) (hq : p.restrictBy condition = .ok q) :
    q.Legible catalog := by
  cases restrictedBy_of_restrictBy hq with
  | none => exact h
  | filtered hpredicate =>
      exact h.readable.reads (Expression.readable_toExpr hcondition hpredicate) h.titles
  | @computed _ predicate columns _ hpredicate hcolumns =>
      have hlegible : ∀ c ∈ columns, c.Legible := by
        rw [hcolumns]
        exact List.forall_mem_singleton.mpr (Column.legible rfl (isTitle_exprName 0)
          (Expression.readable_toExpr hcondition hpredicate))
      have hcomputed : (p.projecting columns).Legible catalog := h.readable.projecting hlegible
      exact hcomputed.readable.reads (.ref 0 predicate.ty) hcomputed.titles

theorem toModel {target : Model} {operation : QueryKind} (h : p.Legible catalog)
    (hq : p.toModel target operation = .ok q) : q.Readable catalog := by
  unfold Plan.toModel at hq
  split at hq
  · cases hq
    exact h.readable
  · obtain rfl := (yields_transform _ _ _).result hq
    refine readable_node trivial (fun _ => List.forall_mem_map.mpr fun f hf => ?_)
      (List.forall_mem_singleton.mpr h.readable)
    unfold Field.converted
    split
    · exact h.titles f hf
    · exact h.titles f hf

end Legible

end Plan

/-! ## Projections -/

theorem legible_starColumns {s : Schema} (h : ∀ f ∈ s, isTitle f.name = true) :
    ∀ c ∈ starColumns s, c.Legible := by
  intro c hc
  obtain ⟨i, f, hf, rfl⟩ := mem_starColumns hc
  exact Column.legible rfl (h f (List.mem_of_getElem? hf)) (.ref i f.ty)

theorem Column.legible_again {columns : List Column} (h : ∀ c ∈ columns, c.Legible) :
    ∀ c ∈ Column.again columns, c.Legible := by
  intro c hc
  obtain ⟨i, hi, rfl⟩ := List.mem_mapIdx.mp hc
  exact ⟨(h _ (List.getElem_mem hi)).name, .ref i _⟩

theorem ReturnItem.Becomes.legible {scope : Schema} {item : ReturnItem} {column : Column}
    (h : item.Becomes scope column) (hplain : item.expression.isPlain = true)
    (htitle : isTitle item.name = true) : column.Legible :=
  Column.legible h.name htitle (Expression.readable_toExpr hplain h.expr)

/-- An aggregate with a title, whose argument is plain if it has one. -/
structure AggregateItem.Plain (a : AggregateItem) : Prop where
  name : isTitle a.name = true
  argument : ∀ argument ∈ a.argument, argument.isPlain = true

theorem plain_aggregateItem {name : String} {e : Expression} {a : AggregateItem}
    (hname : isTitle name = true) (he : e.isPlain = true) (h : aggregateItem name e = .ok a) :
    a.Plain := by
  unfold aggregateItem at h
  split at h
  · cases h
    exact ⟨hname, nofun⟩
  · split at h
    · cases h
    · split at h
      · split at h
        · cases h
        · cases h
          refine ⟨hname, ?_⟩
          rintro argument hargument
          cases hargument
          simp [Expression.isPlain, Expression.allPlain] at he
          exact he.2
      · cases h
  · cases h

theorem legible_aggregateCalls {scope : Schema} {width count : Nat} {items : List AggregateItem}
    {columns : List Column} {calls : List Aggregate} (hitems : ∀ a ∈ items, a.Plain)
    (h : aggregateCalls scope width count items = .ok (columns, calls)) :
    (∀ c ∈ columns, c.Legible) ∧ ∀ call ∈ calls, isTitle call.name = true := by
  induction items generalizing width count columns calls with
  | nil =>
      cases h
      exact ⟨List.forall_mem_nil _, List.forall_mem_nil _⟩
  | cons a items ih =>
      obtain ⟨ha, hitems⟩ := List.forall_mem_cons.mp hitems
      unfold aggregateCalls at h
      split at h
      · next argument hargument =>
          obtain ⟨e, he, h⟩ := bind_eq_ok.mp h
          obtain ⟨⟨columns, calls⟩, hrest, h⟩ := bind_eq_ok.mp h
          cases h
          obtain ⟨hcolumns, hcalls⟩ := ih hitems hrest
          have hcolumn := Expression.readable_toExpr (ha.argument argument hargument) he
          exact ⟨List.forall_mem_cons.mpr
            ⟨Column.legible rfl (isTitle_exprName count) hcolumn, hcolumns⟩,
            List.forall_mem_cons.mpr ⟨ha.name, hcalls⟩⟩
      · obtain ⟨⟨columns, calls⟩, hrest, h⟩ := bind_eq_ok.mp h
        cases h
        obtain ⟨hcolumns, hcalls⟩ := ih hitems hrest
        exact ⟨hcolumns, List.forall_mem_cons.mpr ⟨ha.name, hcalls⟩⟩

namespace Projection

variable {catalog : Catalog} {p : Projection} {input plan : Plan} {columns : List Column}

theorem isPlain_iff : p.isPlain = true ↔
    (∀ item ∈ p.items, item.expression.isPlain = true ∧ isTitle item.name = true) ∧
      ∀ item ∈ p.orderBy, item.expression.isPlain = true ∧
        isTitle item.expression.sortName = true := by
  simp [isPlain]

theorem titles_starFields (h : ∀ f ∈ input.schema, isTitle f.name = true) :
    ∀ f ∈ p.starFields input.schema, isTitle f.name = true := by
  unfold starFields
  split
  · exact h
  · exact List.forall_mem_nil _

theorem legible_columns (hp : p.isPlain = true) (hinput : input.Legible catalog)
    (h : p.columns input.schema = .ok columns) : ∀ c ∈ columns, c.Legible := by
  obtain ⟨items, hitems, h⟩ := bind_eq_ok.mp h
  cases h
  refine List.forall_mem_append.mpr
    ⟨legible_starColumns (titles_starFields hinput.titles), fun c hc => ?_⟩
  obtain ⟨item, hmem, hitem⟩ := exists_mem_of_forall₂ (itemColumns_eq_ok.mp hitems) hc
  obtain ⟨hplain, htitle⟩ := (isPlain_iff.mp hp).1 item hmem
  exact hitem.legible hplain htitle

theorem legible_of_scalar (hscalar : p.items.any (·.expression.containsAggregate) = false)
    (hp : p.isPlain = true) (hinput : input.Legible catalog) (h : p.toPlan input = .ok plan) :
    plan.Legible catalog := by
  cases hsorted : p.isSorted with
  | false =>
      obtain ⟨columns, hcolumns, rfl⟩ := toPlan_eq_projecting hscalar hsorted h
      exact hinput.readable.projecting (legible_columns hp hinput hcolumns)
  | true =>
      obtain ⟨columns, hidden, hiddenNames, keys, offset, limit, hplan⟩ :=
        exists_sortedAs hscalar hsorted h
      have hcolumns := legible_columns hp hinput hplan.lowered
      have hhidden : ∀ c ∈ hidden, c.Legible := by
        intro c hc
        obtain ⟨item, hmem, hitem⟩ := hplan.hides.becomes c hc
        obtain ⟨hplain, htitle⟩ := (isPlain_iff.mp hp).2 item hmem
        exact Column.legible hitem.name htitle (Expression.readable_toExpr hplain hitem.expr)
      have hrows := (hinput.readable.projecting
        (List.forall_mem_append.mpr ⟨hcolumns, hhidden⟩)).sorting keys offset limit
      rw [hplan.shape]
      split
      · exact hrows
      · exact hrows.readable.projecting (Column.legible_again hcolumns)

theorem legible_group (hp : p.isPlain = true) (hinput : input.Legible catalog)
    (h : p.group input = .ok plan) : plan.Legible catalog := by
  obtain ⟨⟨keys, aggregates⟩, hsplit, h⟩ := bind_eq_ok.mp h
  obtain ⟨⟨arguments, calls⟩, hcalls, h⟩ := bind_eq_ok.mp h
  obtain ⟨project, hproject, h⟩ := bind_eq_ok.mp h
  obtain ⟨hkeys, haggregates⟩ := splitItems_eq_ok hsplit
  have hitems := (isPlain_iff.mp hp).1
  have hkeys : ∀ c ∈ keys, c.Legible := by
    intro c hc
    obtain ⟨item, hmem, hitem⟩ := exists_mem_of_forall₂ hkeys hc
    obtain ⟨hplain, htitle⟩ := hitems item (List.mem_of_mem_filter hmem)
    exact hitem.legible hplain htitle
  have haggregates : ∀ a ∈ aggregates, a.Plain := by
    intro a ha
    obtain ⟨item, hmem, hitem⟩ := exists_mem_of_forall₂ haggregates ha
    obtain ⟨hplain, htitle⟩ := hitems item (List.mem_of_mem_filter hmem)
    exact plain_aggregateItem htitle hplain hitem
  obtain ⟨harguments, htitles⟩ := legible_aggregateCalls haggregates hcalls
  obtain rfl := (Plan.yields_projectColumns _ _).result hproject
  obtain rfl := (Plan.yields_aggregate _ _ _).result h
  have hstar := legible_starColumns (titles_starFields (p := p) hinput.titles)
  have hproject := hinput.readable.projecting
    (List.forall_mem_append.mpr ⟨List.forall_mem_append.mpr ⟨hstar, hkeys⟩, harguments⟩)
  exact hproject.readable.reads htitles
    (List.forall_mem_cons.mpr ⟨by decide, List.forall_mem_map.mpr htitles⟩)

theorem legible_toPlan (hp : p.isPlain = true) (hinput : input.Legible catalog)
    (h : p.toPlan input = .ok plan) : plan.Legible catalog := by
  cases hgroups : p.items.any (·.expression.containsAggregate) with
  | false => exact legible_of_scalar hgroups hp hinput h
  | true =>
      unfold toPlan at h
      simp only [hgroups, bind_eq_ok, require_eq_ok, if_true] at h
      obtain ⟨_, -, _, -, groups, hgroup, h⟩ := h
      have hlegible := legible_group hp hinput hgroup
      rcases sortGroups_eq_ok h with rfl | ⟨keys, offset, limit, rfl⟩
      · exact hlegible
      · exact hlegible.sorting keys offset limit

end Projection

/-! ## Matches -/

/-- Every name that a path binds stands in the path. -/
theorem Value.PlainPath.isPlain_name {path : Path} (h : PlainPath path) {name : String}
    (hname : name ∈ path.names) : isPlain name = true := by
  rcases PathOf.isSome_elementTy?.mp (PathOf.isSome_of_mem_names hname) with
    ⟨node, hnode, hvar⟩ | ⟨edge, hedge, hvar⟩ | hvar
  · exact (h.nodes node hnode).var name hvar
  · exact (h.edges edge hedge).var name hvar
  · exact h.var name hvar

theorem PathOf.readable_bindings {paths : List Path} (h : ∀ path ∈ paths, Value.PlainPath path) :
    ∀ b ∈ PathOf.bindings paths, b.Readable := by
  intro b hb
  obtain ⟨path, hpath, hb⟩ := List.mem_flatMap.mp hb
  obtain ⟨name, hname, rfl⟩ := List.mem_map.mp hb
  have hplain := h path hpath
  refine ⟨hplain.isPlain_name hname, .call (PathOf.elementCall_eq hname) trivial ?_⟩
  refine List.forall_mem_cons.mpr ⟨.ref 0 .graph, List.forall_mem_cons.mpr ⟨?_, ?_⟩⟩
  · exact .ofValue hplain.plainlyNamed
  · exact List.forall_mem_singleton.mpr (.ofString name)

namespace Plan

variable {catalog : Catalog} {top p : Plan}

/-- What is bound already was bound by a match of the plan. -/
theorem Readable.matchBase {base : Plan} {bound : List Binding} (h : top.Readable catalog)
    (hbase : Drafting.matchBase top = .ok (base, bound)) :
    base.Readable catalog ∧ ∀ b ∈ bound, b.Readable := by
  have hop := (h top (.self top)).1
  unfold Drafting.matchBase at hbase
  split at hbase
  · next bindings hbindings =>
      split at hbase
      · next input rest hinputs =>
          cases hbase
          rw [hbindings] at hop
          exact ⟨h.inputs _ (by simp [hinputs]), hop⟩
      · cases hbase
  · split at hbase
    · cases hbase
      exact ⟨h, List.forall_mem_nil _⟩
    · cases hbase

theorem Readable.extendMatch {calls : List Binding} (h : top.Readable catalog)
    (hcalls : ∀ b ∈ calls, b.Readable) (hp : top.extendMatch calls = .ok p) :
    p.Legible catalog := by
  obtain ⟨-, base, bound, hbase, hp⟩ := Plan.extendMatch_eq_ok.mp hp
  obtain ⟨hinput, hbound⟩ := h.matchBase hbase
  obtain rfl := (yields_patternMatch base _).result hp
  have hreadable : ∀ b ∈ Binding.extend bound calls, b.Readable := fun b hb =>
    (Binding.mem_of_mem_extend hb).elim (hbound b) (hcalls b)
  refine hinput.reads hreadable (List.forall_mem_map.mpr fun b hb => ?_)
  exact isTitle_of_isPlain (hreadable b hb).name

end Plan

/-! ## Writes -/

theorem readable_endpointExpr {key : String} (h : isPlain key = true) (scope : Schema) :
    (endpointExpr scope key).Readable := by
  unfold endpointExpr
  split
  · exact .ref _ _
  · have hnode : Value.PlainNode (.standIn key) := by
      refine ⟨⟨List.forall_mem_nil _, List.forall_mem_nil _, ?_, nofun, Or.inr rfl⟩,
        List.forall_mem_nil _⟩
      rintro _ ⟨⟩
      exact h
    exact .ofValue hnode.plainlyNamed

theorem legible_newNodes {scope : Schema} {n : Nat} {nodes : List (String × Node)}
    (h : ∀ entry ∈ nodes, Value.PlainNode entry.2) :
    ∀ c ∈ (newNodes scope n nodes).1, c.Legible := by
  induction nodes generalizing n with
  | nil => exact List.forall_mem_nil _
  | cons entry rest ih =>
      obtain ⟨key, node⟩ := entry
      obtain ⟨hnode, hrest⟩ := List.forall_mem_cons.mp h
      have hexpr := Expr.Readable.ofValue (Value.PlainNode.plainlyNamed hnode)
      unfold newNodes
      split
      · exact ih hrest
      · split
        · next name hvar =>
            exact List.forall_mem_cons.mpr
              ⟨Column.legible rfl (isTitle_of_isPlain (hnode.var name hvar)) hexpr, ih hrest⟩
        · exact List.forall_mem_cons.mpr
            ⟨Column.legible rfl (isTitle_exprName n) hexpr, ih hrest⟩

theorem legible_newEdges {scope : Schema} {n : Nat} {edges : List BoundEdge}
    {columns : List Column} (hedges : ∀ b ∈ edges, b.Plain)
    (h : newEdges scope n edges = .ok columns) : ∀ c ∈ columns, c.Legible := by
  induction edges generalizing n columns with
  | nil =>
      cases h
      exact List.forall_mem_nil _
  | cons bound rest ih =>
      obtain ⟨hbound, hrest⟩ := List.forall_mem_cons.mp hedges
      rw [newEdges, EndpointCase.ends_classify, ok_bind] at h
      obtain ⟨call, hcall, h⟩ := bind_eq_ok.mp h
      have hends := List.forall_mem_cons.mpr ⟨readable_endpointExpr hbound.left scope,
        List.forall_mem_singleton.mpr (readable_endpointExpr hbound.right scope)⟩
      have hexpr : call.Readable := .call hcall trivial
        (List.forall_mem_cons.mpr ⟨.ofValue hbound.edge.plainlyNamed, hends⟩)
      split at h
      · next name hname =>
          obtain ⟨columns, hcolumns, h⟩ := bind_eq_ok.mp h
          cases h
          exact List.forall_mem_cons.mpr ⟨Column.legible rfl
            (isTitle_of_isPlain (hbound.name name hname)) hexpr, ih hrest hcolumns⟩
      · obtain ⟨columns, hcolumns, h⟩ := bind_eq_ok.mp h
        cases h
        exact List.forall_mem_cons.mpr
          ⟨Column.legible rfl (isTitle_exprName n) hexpr, ih hrest hcolumns⟩

theorem KeyedNode.plain_collect {ks : List KeyedNode} (hks : ∀ k ∈ ks, Value.PlainNode k.node) :
    ∀ entry ∈ KeyedNode.collect [] ks, Value.PlainNode entry.2 := by
  rw [KeyedNode.collect_eq, List.nil_append]
  exact List.forall_mem_map.mpr fun k hk => hks k (KeyedNode.mem_fresh hk).1

theorem legible_values {catalog : Catalog} {v : LiteralRows} {p : Plan} (hv : v.PlainlyNamed)
    (hcolumns : ∀ name ∈ v.columns, isPlain name = true) (h : Plan.values v = .ok p) :
    p.Legible catalog := by
  obtain rfl := (Plan.yields_values v).result h
  refine Plan.legible_leaf hv (List.forall_mem_append.mpr ⟨List.forall_mem_map.mpr ?_, ?_⟩)
  · intro n hn
    cases hvar : n.var with
    | none => decide
    | some name => exact isTitle_of_isPlain ((hv.nodes n hn).var name hvar)
  · unfold LiteralRows.columnFields
    split
    · exact List.forall_mem_map.mpr fun name hname => isTitle_of_isPlain (hcolumns name hname)
    · rw [← List.map_uncurry_zip_eq_zipWith]
      refine List.forall_mem_map.mpr fun pair hpair => ?_
      exact isTitle_of_isPlain (hcolumns pair.1 (List.of_mem_zip hpair).1)

/-- The entries of a queue have plain names, and can be read off. -/
def ReadableQueue (queue : List (Option String × Expr)) : Prop :=
  ∀ entry ∈ queue, (∀ name ∈ entry.1, isPlain name = true) ∧ entry.2.Readable

theorem ReadableQueue.snoc {queue : List (Option String × Expr)} (h : ReadableQueue queue)
    {name : String} {e : Expr} (hname : isPlain name = true) (he : e.Readable) :
    ReadableQueue (queue ++ [(some name, e)]) := by
  refine List.forall_mem_append.mpr ⟨h, List.forall_mem_singleton.mpr ⟨?_, he⟩⟩
  rintro _ ⟨⟩
  exact hname

theorem mem_of_takeNamed {name : String} {queue rest : List (Option String × Expr)} {e : Expr}
    (h : Drafting.takeNamed name queue = some (e, rest)) : (some name, e) ∈ queue := by
  induction queue generalizing rest with
  | nil => simp [Drafting.takeNamed] at h
  | cons first queue ih =>
      obtain ⟨n, x⟩ := first
      unfold Drafting.takeNamed at h
      split at h
      · next hname =>
          cases h
          rw [hname]
          exact List.mem_cons_self
      · obtain ⟨⟨found, others⟩, hfound, heq⟩ := Option.map_eq_some_iff.mp h
        cases heq
        exact List.mem_cons_of_mem _ (ih hfound)

theorem readable_queueUpdate {scope : Schema} {queue updated : List (Option String × Expr)}
    {name : String} {update : Expr → Except Error Expr} (hqueue : ReadableQueue queue)
    (hname : isPlain name = true)
    (hupdate : ∀ target e, target.Readable → update target = .ok e → e.Readable)
    (h : queueUpdate scope queue name update = .ok updated) : ReadableQueue updated := by
  unfold queueUpdate at h
  split at h
  · next queued others hfound =>
      obtain ⟨e, he, h⟩ := bind_eq_ok.mp h
      cases h
      have hothers : ReadableQueue others := fun entry hentry =>
        hqueue entry (takeNamed_subset hfound entry hentry)
      exact hothers.snoc hname (hupdate _ e (hqueue _ (mem_of_takeNamed hfound)).2 he)
  · obtain ⟨field, hfield, h⟩ := bind_eq_ok.mp h
    obtain ⟨e, he, h⟩ := bind_eq_ok.mp h
    cases h
    exact hqueue.snoc hname (hupdate _ e (Schema.readable_lookup hfield) he)

theorem SetItem.readable_update {scope : Schema} {item : SetItem} {target e : Expr}
    (hitem : item.isPlain = true) (htarget : target.Readable)
    (h : item.update scope target = .ok e) : e.Readable := by
  have hvalue := (Bool.and_eq_true_iff.mp hitem).2
  cases item with
  | property name key value =>
      obtain ⟨v, hv, h⟩ := bind_eq_ok.mp h
      have hv := Expression.readable_toExpr (e := value) hvalue hv
      refine .call h trivial (List.forall_mem_cons.mpr ⟨htarget, ?_⟩)
      exact List.forall_mem_cons.mpr ⟨.ofString key, List.forall_mem_singleton.mpr hv⟩
  | replace name value | merge name value =>
      obtain ⟨v, hv, h⟩ := bind_eq_ok.mp h
      have hv := Expression.readable_toExpr (e := value) hvalue hv
      refine .call h trivial (List.forall_mem_cons.mpr ⟨htarget, ?_⟩)
      exact List.forall_mem_cons.mpr ⟨hv, List.forall_mem_singleton.mpr
        (.ofValue (.intro trivial (List.forall_mem_nil _)))⟩
  | labels name added =>
      dsimp only [update] at h
      split at h
      · cases h
      · exact .call₂ h trivial htarget (.ofStrings added)

theorem RemoveItem.readable_update {item : RemoveItem} {target e : Expr} (htarget : target.Readable)
    (h : item.update target = .ok e) : e.Readable := by
  cases item with
  | property name key => exact .call₂ h trivial htarget (.ofString key)
  | labels name removed => exact .call₂ h trivial htarget (.ofStrings removed)

namespace UpdateItem

def isPlain : UpdateItem → Bool
  | set item => item.isPlain
  | remove item => Text.isPlain item.var

theorem isPlain_var {item : UpdateItem} (h : item.isPlain = true) :
    Text.isPlain item.var = true := by
  cases item with
  | set item => exact (Bool.and_eq_true_iff.mp h).1
  | remove item => exact h

theorem readable_update {scope : Schema} {item : UpdateItem} {target e : Expr}
    (hitem : item.isPlain = true) (htarget : target.Readable)
    (h : item.update scope target = .ok e) : e.Readable := by
  cases item with
  | set item => exact item.readable_update hitem htarget h
  | remove item => exact item.readable_update htarget h

end UpdateItem

theorem readable_queueItems {scope : Schema} {queue updated : List (Option String × Expr)}
    {items : List UpdateItem} (hitems : ∀ item ∈ items, item.isPlain = true)
    (hqueue : ReadableQueue queue) (h : items.foldlM (queueItem scope) queue = .ok updated) :
    ReadableQueue updated := by
  induction items generalizing queue with
  | nil =>
      cases h
      exact hqueue
  | cons item items ih =>
      obtain ⟨hitem, hitems⟩ := List.forall_mem_cons.mp hitems
      rw [List.foldlM_cons] at h
      obtain ⟨next, hnext, h⟩ := bind_eq_ok.mp h
      exact ih hitems (readable_queueUpdate hqueue (UpdateItem.isPlain_var hitem)
        (fun _ _ => item.readable_update hitem) hnext) h

theorem readable_queueDeletes {scope : Schema} {queue updated : List (Option String × Expr)}
    {names : List String} (hnames : ∀ name ∈ names, isPlain name = true)
    (hqueue : ReadableQueue queue) (h : queueDeletes scope queue names = .ok updated) :
    ReadableQueue updated := by
  induction names generalizing queue with
  | nil =>
      cases h
      exact hqueue
  | cons name names ih =>
      obtain ⟨hname, hnames⟩ := List.forall_mem_cons.mp hnames
      obtain ⟨target, htarget, h⟩ := bind_eq_ok.mp h
      obtain ⟨_, -, h⟩ := bind_eq_ok.mp h
      split at h
      · exact ih hnames hqueue h
      · exact ih hnames (hqueue.snoc hname (Schema.readable_lookup htarget)) h

theorem readable_targetsOf {queue : List (Option String × Expr)} {targets : List Binding}
    (hqueue : ReadableQueue queue) (h : Drafting.targetsOf queue = .ok targets) :
    ∀ t ∈ targets, t.Readable := by
  induction queue generalizing targets with
  | nil =>
      cases h
      exact List.forall_mem_nil _
  | cons entry rest ih =>
      obtain ⟨⟨hname, he⟩, hrest⟩ := List.forall_mem_cons.mp hqueue
      obtain ⟨_ | name, e⟩ := entry
      · cases h
      · obtain ⟨others, hothers, h⟩ := bind_eq_ok.mp h
        cases h
        exact List.forall_mem_cons.mpr ⟨⟨hname name rfl, he⟩, ih hrest hothers⟩

end QueryPlan
