import Mathlib.Data.List.Dedup
import Mathlib.Data.List.Induction
import QueryPlan.Proofs.Expr.Scoping
import QueryPlan.Proofs.Lowering.Steps

/-!
# Updates of variables

A `SET` or a `REMOVE` makes one update of each variable it names, however the items of different
variables are mixed. The queue is worked over in place: an item takes the update of its variable
out, wraps it, and puts it back at the end. `UpdatesOf` says what the queue is after any items
without following the queue: each variable's update is the fold of its own items over its field, and
the variables come in the order of their last items.
-/

namespace QueryPlan

/-! ## Items -/

/-- An item of a `SET` or of a `REMOVE`. -/
inductive UpdateItem
  | set (item : SetItem)
  | remove (item : RemoveItem)

/-- The items of a clause that updates. -/
def Clause.updates : Clause → List UpdateItem
  | .setting s => s.items.map .set
  | .removing r => r.items.map .remove
  | _ => []

namespace UpdateItem

variable {scope : Schema} {item : UpdateItem} {target e start : Expr}

def var : UpdateItem → String
  | set item => item.var
  | remove item => item.var

/-- The update that the item makes of a target. -/
def update (scope : Schema) : UpdateItem → Expr → Except Error Expr
  | set item => item.update scope
  | remove item => item.update

/-- What an item makes of a target: a call of the target's type, whose first operand the target is.
Values are lowered over the scope. -/
inductive Wraps (scope : Schema) (target : Expr) : UpdateItem → Expr → Prop
  | setProperty {name key : String} {value : Expression} {v : Expr} :
      value.toExpr scope = .ok v →
      Wraps scope target (.set (.property name key value))
        (.apply .setProperty [target, .ofString key, v] target.ty)
  | replaceProperties {name : String} {value : Expression} {v : Expr} :
      value.toExpr scope = .ok v →
      Wraps scope target (.set (.replace name value))
        (.apply .setProperties [target, v, .ofValue (.bool true)] target.ty)
  | mergeProperties {name : String} {value : Expression} {v : Expr} :
      value.toExpr scope = .ok v →
      Wraps scope target (.set (.merge name value))
        (.apply .setProperties [target, v, .ofValue (.bool false)] target.ty)
  /-- An edge has one label. -/
  | setLabels {name : String} {added : List String} :
      (target.ty = .edge → added.length = 1) →
      Wraps scope target (.set (.labels name added))
        (.apply .setLabels [target, .ofStrings added] target.ty)
  | removeProperty {name key : String} :
      Wraps scope target (.remove (.property name key))
        (.apply .removeProperty [target, .ofString key] target.ty)
  | removeLabels {name : String} {removed : List String} :
      Wraps scope target (.remove (.labels name removed))
        (.apply .removeLabels [target, .ofStrings removed] target.ty)

/-- The left fold of items over an expression. -/
inductive Folds (scope : Schema) (start : Expr) : List UpdateItem → Expr → Prop
  | nil : Folds scope start [] start
  | snoc {items : List UpdateItem} {item : UpdateItem} {e last : Expr} :
      Folds scope start items e → item.Wraps scope e last → Folds scope start (items ++ [item]) last

theorem Wraps.ty_eq (h : item.Wraps scope target e) : e.ty = target.ty := by
  cases h <;> rfl

theorem Folds.ty_eq {items : List UpdateItem} (h : Folds scope start items e) :
    e.ty = start.ty := by
  induction h with
  | nil => rfl
  | snoc _ hwraps ih => rw [hwraps.ty_eq, ih]

end UpdateItem

/-- The operators that change an element and give it back. -/
def Operator.isUpdate : Operator → Bool
  | setProperty | setProperties | setLabels | removeProperty | removeLabels => true
  | _ => false

/-- An update has the type of what it updates. -/
theorem Expr.call_update {op : Operator} {target e : Expr} {rest : List Expr}
    (hop : op.isUpdate = true) (h : Expr.call op (target :: rest) = .ok e) :
    e = .apply op (target :: rest) target.ty := by
  obtain ⟨ty, hty, h⟩ := bind_eq_ok.mp h
  cases h
  congr 1
  cases op with
  | setProperty =>
      match rest, hty with
      | [_, _], hty =>
          obtain ⟨_, -, hty⟩ := bind_eq_ok.mp hty
          obtain ⟨_, -, hty⟩ := bind_eq_ok.mp hty
          exact (Except.ok.inj hty).symm
  | setProperties =>
      match rest, hty with
      | [_, _], hty =>
          obtain ⟨_, -, hty⟩ := bind_eq_ok.mp hty
          obtain ⟨_, -, hty⟩ := bind_eq_ok.mp hty
          obtain ⟨_, -, hty⟩ := bind_eq_ok.mp hty
          exact (Except.ok.inj hty).symm
  | setLabels | removeLabels | removeProperty =>
      match rest, hty with
      | [_], hty =>
          obtain ⟨_, -, hty⟩ := bind_eq_ok.mp hty
          obtain ⟨_, -, hty⟩ := bind_eq_ok.mp hty
          exact (Except.ok.inj hty).symm
  | _ => cases hop

theorem UpdateItem.wraps_of_update {scope : Schema} {item : UpdateItem} {target e : Expr}
    (h : item.update scope target = .ok e) : item.Wraps scope target e := by
  rcases item with (⟨name, key, value⟩ | ⟨name, value⟩ | ⟨name, value⟩ | ⟨name, added⟩) |
    (⟨name, key⟩ | ⟨name, removed⟩)
  · obtain ⟨v, hv, h⟩ := bind_eq_ok.mp h
    obtain rfl := Expr.call_update rfl h
    exact .setProperty hv
  · obtain ⟨v, hv, h⟩ := bind_eq_ok.mp h
    obtain rfl := Expr.call_update rfl h
    exact .replaceProperties hv
  · obtain ⟨v, hv, h⟩ := bind_eq_ok.mp h
    obtain rfl := Expr.call_update rfl h
    exact .mergeProperties hv
  · dsimp only [update, SetItem.update] at h
    split at h
    · cases h
    · next hlabels =>
        obtain rfl := Expr.call_update rfl h
        exact .setLabels (by simpa using hlabels)
  · obtain rfl := Expr.call_update rfl h
    exact .removeProperty
  · obtain rfl := Expr.call_update rfl h
    exact .removeLabels

/-! ## Queues -/

/-- A binding as it is queued. -/
def Binding.queued (b : Binding) : Option String × Expr := (some b.name, b.expr)

/-- Queues the update of an item. -/
def queueItem (scope : Schema) (queue : List (Option String × Expr)) (item : UpdateItem) :
    Except Error (List (Option String × Expr)) :=
  queueUpdate scope queue item.var (item.update scope)

theorem queueSets_eq_foldlM (scope : Schema) (queue : List (Option String × Expr))
    (items : List SetItem) :
    queueSets scope queue items = (items.map UpdateItem.set).foldlM (queueItem scope) queue := by
  induction items generalizing queue with
  | nil => rfl
  | cons item items ih =>
      rw [queueSets, List.map_cons, List.foldlM_cons]
      exact bind_congr ih

theorem queueRemoves_eq_foldlM (scope : Schema) (queue : List (Option String × Expr))
    (items : List RemoveItem) :
    queueRemoves scope queue items =
      (items.map UpdateItem.remove).foldlM (queueItem scope) queue := by
  induction items generalizing queue with
  | nil => rfl
  | cons item items ih =>
      rw [queueRemoves, List.map_cons, List.foldlM_cons]
      exact bind_congr ih

theorem targetsOf_queued (targets : List Binding) :
    Drafting.targetsOf (targets.map Binding.queued) = .ok targets := by
  induction targets with
  | nil => rfl
  | cons t targets ih => simp [Drafting.targetsOf, Binding.queued, ih]

/-- What is taken out of a queue stood in it, and the others stay as they are. -/
theorem takeNamed_queued_eq_some {targets : List Binding} {name : String} {e : Expr}
    {others : List (Option String × Expr)}
    (h : Drafting.takeNamed name (targets.map Binding.queued) = some (e, others)) :
    ∃ before after, targets = before ++ ⟨name, e⟩ :: after ∧
      others = (before ++ after).map Binding.queued := by
  induction targets generalizing others with
  | nil => cases h
  | cons t targets ih =>
      rw [List.map_cons, Binding.queued, Drafting.takeNamed] at h
      split at h
      · next hname =>
          cases h
          exact ⟨[], targets, by rw [← Option.some.inj hname]; rfl, rfl⟩
      · obtain ⟨⟨found, rest⟩, hfound, heq⟩ := Option.map_eq_some_iff.mp h
        cases heq
        obtain ⟨before, after, rfl, rfl⟩ := ih hfound
        exact ⟨t :: before, after, rfl, rfl⟩

theorem takeNamed_queued_eq_none {targets : List Binding} {name : String}
    (h : Drafting.takeNamed name (targets.map Binding.queued) = none) :
    name ∉ targets.map Binding.name := by
  induction targets with
  | nil => exact List.not_mem_nil
  | cons t targets ih =>
      rw [List.map_cons, Binding.queued, Drafting.takeNamed] at h
      split at h
      · cases h
      · next hname =>
          rw [List.map_cons, List.mem_cons, not_or]
          exact ⟨fun heq => hname (congrArg some heq.symm), ih (Option.map_eq_none_iff.mp h)⟩

/-! ## What a queue holds -/

/-- A variable's update: the fold of items over the last field of its name. -/
def UpdateItem.Makes (scope : Schema) (items : List UpdateItem) (t : Binding) : Prop :=
  ∃ i f, scope.IsLast t.name i f ∧ Folds scope (.ref i f.ty) items t.expr

/-- The updates that items make. Of equal names `List.dedup` keeps the last, so the variables come
in the order of their last items. -/
structure UpdatesOf (scope : Schema) (items : List UpdateItem) (targets : List Binding) :
    Prop where
  names : targets.map Binding.name = (items.map UpdateItem.var).dedup
  made : ∀ t ∈ targets, UpdateItem.Makes scope (items.filter (·.var = t.name)) t

/-- One more name goes to the end. -/
theorem dedup_concat (names : List String) (name : String) :
    (names ++ [name]).dedup = names.dedup.erase name ++ [name] := by
  induction names with
  | nil => rfl
  | cons first names ih =>
      rw [List.cons_append, List.dedup_cons, List.dedup_cons, ih]
      by_cases hfirst : first ∈ names
      · simp [hfirst]
      · by_cases heq : first = name
        · subst heq
          have hdedup : first ∉ names.dedup := mt List.mem_dedup.mp hfirst
          simp [hfirst, List.erase_of_not_mem hdedup]
        · simp [hfirst, heq]

namespace UpdatesOf

variable {scope : Schema} {items : List UpdateItem} {targets : List Binding} {item : UpdateItem}

theorem nil (scope : Schema) : UpdatesOf scope [] [] := ⟨rfl, List.forall_mem_nil _⟩

theorem nodup (h : UpdatesOf scope items targets) : (targets.map Binding.name).Nodup := by
  rw [h.names]
  exact List.nodup_dedup _

theorem mem_names (h : UpdatesOf scope items targets) {name : String} :
    name ∈ targets.map Binding.name ↔ ∃ item ∈ items, item.var = name := by
  rw [h.names, List.mem_dedup, List.mem_map]

/-- An item leaves the updates of other variables alone. -/
theorem made_other (h : UpdatesOf scope items targets) {t : Binding} (ht : t ∈ targets)
    (hother : t.name ≠ item.var) :
    UpdateItem.Makes scope ((items ++ [item]).filter (·.var = t.name)) t := by
  have hnone : [item].filter (fun other => decide (other.var = t.name)) = [] := by
    simp [Ne.symm hother]
  rw [List.filter_append, hnone, List.append_nil]
  exact h.made t ht

/-- An item wraps the update that the items before it made of its variable. -/
theorem made_own {e last : Expr}
    (h : UpdateItem.Makes scope (items.filter (·.var = item.var)) ⟨item.var, e⟩)
    (hwraps : item.Wraps scope e last) :
    UpdateItem.Makes scope ((items ++ [item]).filter (·.var = item.var)) ⟨item.var, last⟩ := by
  obtain ⟨i, f, hlast, hfolds⟩ := h
  have hself : [item].filter (fun other => decide (other.var = item.var)) = [item] := by simp
  rw [List.filter_append, hself]
  exact ⟨i, f, hlast, hfolds.snoc hwraps⟩

/-- The update of a variable is taken out, wrapped, and put at the end. -/
theorem rewrap {before after : List Binding} {e last : Expr}
    (h : UpdatesOf scope items (before ++ ⟨item.var, e⟩ :: after))
    (hwraps : item.Wraps scope e last) :
    UpdatesOf scope (items ++ [item]) (before ++ after ++ [⟨item.var, last⟩]) := by
  have hnodup := h.nodup
  rw [List.map_append, List.map_cons, List.nodup_middle, List.nodup_cons, ← List.map_append]
    at hnodup
  obtain ⟨hfresh, -⟩ := hnodup
  constructor
  · have hbefore : item.var ∉ before.map Binding.name := fun hmem =>
      hfresh (by rw [List.map_append]; exact List.mem_append_left _ hmem)
    have herase : ((before ++ (⟨item.var, e⟩ : Binding) :: after).map Binding.name).erase
        item.var = (before ++ after).map Binding.name := by
      rw [List.map_append, List.erase_append_right _ hbefore, List.map_cons,
        List.erase_cons_head, List.map_append]
    rw [List.map_append, List.map_singleton, ← herase, h.names, List.map_append,
      List.map_singleton, dedup_concat]
  · intro t ht
    rcases List.mem_append.mp ht with hold | hnew
    · have hother : t.name ≠ item.var := fun heq =>
        hfresh (List.mem_map.mpr ⟨t, hold, heq⟩)
      refine h.made_other ?_ hother
      rcases List.mem_append.mp hold with hmem | hmem
      · exact List.mem_append_left _ hmem
      · exact List.mem_append_right _ (List.mem_cons_of_mem _ hmem)
    · obtain rfl := List.mem_singleton.mp hnew
      exact made_own (h.made _ (by simp)) hwraps

/-- The first item of a variable wraps its field. -/
theorem wrap {i : Nat} {f : Field} {last : Expr} (h : UpdatesOf scope items targets)
    (hfresh : item.var ∉ targets.map Binding.name) (hlast : scope.IsLast item.var i f)
    (hwraps : item.Wraps scope (.ref i f.ty) last) :
    UpdatesOf scope (items ++ [item]) (targets ++ [⟨item.var, last⟩]) := by
  constructor
  · rw [List.map_append, List.map_singleton, List.map_append, List.map_singleton, dedup_concat,
      ← h.names, List.erase_of_not_mem hfresh]
  · intro t ht
    rcases List.mem_append.mp ht with hold | hnew
    · exact h.made_other hold fun heq => hfresh (List.mem_map.mpr ⟨t, hold, heq⟩)
    · obtain rfl := List.mem_singleton.mp hnew
      have hnone : items.filter (fun other => decide (other.var = item.var)) = [] := by
        rw [List.filter_eq_nil_iff]
        intro other hother hsame
        exact hfresh (h.mem_names.mpr ⟨other, hother, of_decide_eq_true hsame⟩)
      refine made_own ⟨i, f, hlast, ?_⟩ hwraps
      rw [hnone]
      exact .nil

/-- **One item keeps the queue in step.** -/
theorem queueItem (h : UpdatesOf scope items targets) {queue : List (Option String × Expr)}
    (hqueue : queueItem scope (targets.map Binding.queued) item = .ok queue) :
    ∃ next, queue = next.map Binding.queued ∧ UpdatesOf scope (items ++ [item]) next := by
  unfold QueryPlan.queueItem queueUpdate at hqueue
  split at hqueue
  · next e others htaken =>
      obtain ⟨last, hlast, hqueue⟩ := bind_eq_ok.mp hqueue
      cases hqueue
      obtain ⟨before, after, rfl, rfl⟩ := takeNamed_queued_eq_some htaken
      refine ⟨_, ?_, h.rewrap (UpdateItem.wraps_of_update hlast)⟩
      simp [Binding.queued]
  · next hnone =>
      obtain ⟨field, hfield, hqueue⟩ := bind_eq_ok.mp hqueue
      obtain ⟨last, hlast, hqueue⟩ := bind_eq_ok.mp hqueue
      cases hqueue
      obtain ⟨i, f, hfound, rfl⟩ := Schema.lookup_eq_ok.mp hfield
      refine ⟨_, ?_, h.wrap (takeNamed_queued_eq_none hnone) hfound
        (UpdateItem.wraps_of_update hlast)⟩
      simp [Binding.queued]

end UpdatesOf

/-- **A queue holds the updates of all items queued.** -/
theorem updatesOf_queue {scope : Schema} {items : List UpdateItem}
    {queue : List (Option String × Expr)}
    (h : items.foldlM (queueItem scope) [] = .ok queue) :
    ∃ targets, queue = targets.map Binding.queued ∧ UpdatesOf scope items targets := by
  -- By induction from the end, so that the items queued before the last one are the items seen.
  induction items using List.reverseRecOn generalizing queue with
  | nil =>
      cases h
      exact ⟨[], rfl, .nil scope⟩
  | append_singleton items item ih =>
      rw [List.foldlM_append] at h
      obtain ⟨before, hbefore, h⟩ := bind_eq_ok.mp h
      obtain ⟨targets, rfl, htargets⟩ := ih hbefore
      simp only [List.foldlM_cons, List.foldlM_nil, bind_pure] at h
      exact htargets.queueItem h

/-! ## Clauses -/

theorem GraphSource.write_eq_ok {source : GraphSource} {top : Option Plan} {write : Write}
    {targets : List Binding} {p : Plan}
    (h : source.write top write (targets.map Binding.queued) = .ok p) :
    ∃ entity input, source.target = .ok entity ∧ top = some input ∧
      p = ⟨none, .modify entity write targets, [input], .single "ROWCOUNT" .int64,
        input.model⟩ := by
  unfold GraphSource.write at h
  split at h
  · cases h
  · obtain ⟨entity, hentity, h⟩ := bind_eq_ok.mp h
    obtain ⟨input, hinput, hmodify⟩ := bind_eq_ok.mp h
    rw [targetsOf_queued, ok_bind] at hmodify
    cases top with
    | none => cases hinput
    | some _ =>
        cases hinput
        have hp := (Plan.yields_modify entity input write targets).result hmodify
        exact ⟨entity, input, hentity, rfl, hp⟩

/-- A clause that updates writes the updates its items make over the plan so far. -/
theorem Clause.step_update {catalog : Catalog} {source : GraphSource} {home : NamespaceId}
    {top : Option Plan} {n : Nat} {c : Clause} {r : Option Plan × Nat}
    (hc : c.write? = some .update) (h : c.step catalog source home top n = .ok r) :
    ∃ entity input targets, top = some input ∧ UpdatesOf input.schema c.updates targets ∧
      r = (some ⟨none, .modify entity .update targets, [input], .single "ROWCOUNT" .int64,
        input.model⟩, n) := by
  obtain ⟨queue, hqueue, h⟩ : ∃ queue,
      c.updates.foldlM (queueItem (scopeOf top)) [] = .ok queue ∧
        (source.write top .update queue >>= fun p => .ok (some p, n)) = .ok r := by
    cases c with
    | setting s =>
        obtain ⟨queue, hqueue, h⟩ := bind_eq_ok.mp h
        exact ⟨queue, by rw [updates, ← queueSets_eq_foldlM, hqueue], h⟩
    | removing s =>
        obtain ⟨queue, hqueue, h⟩ := bind_eq_ok.mp h
        exact ⟨queue, by rw [updates, ← queueRemoves_eq_foldlM, hqueue], h⟩
    | _ => cases hc
  obtain ⟨targets, rfl, htargets⟩ := updatesOf_queue hqueue
  obtain ⟨p, hp, h⟩ := bind_eq_ok.mp h
  cases h
  obtain ⟨entity, input, -, rfl, rfl⟩ := GraphSource.write_eq_ok hp
  exact ⟨entity, input, targets, rfl, htargets, rfl⟩

/-- **`SET` and `REMOVE` fold per variable.** The clause writes one update for each variable its
items name, in the order of their last items: the fold of the variable's own items over the last
field of its name, whose type it keeps. -/
theorem Drafting.update_folds_per_variable {catalog : Catalog} {source : GraphSource}
    {home : NamespaceId} {top : Option Plan} {kind : Option QueryKind} {n : Nat} {c : Clause}
    {after : Draft} (hc : c.write? = some .update)
    (h : Drafting.clause home c (.between catalog source top kind n) = .ok () after) :
    ∃ (input p : Plan) (entity : Entity) (targets : List Binding),
      top = some input ∧ after.stack = [p] ∧ p.op = .modify entity .update targets ∧
      p.inputs = [input] ∧
      (targets.map Binding.name).Nodup ∧
      (∀ name, name ∈ targets.map Binding.name ↔ ∃ item ∈ c.updates, item.var = name) ∧
      targets.map Binding.name = (c.updates.map UpdateItem.var).dedup ∧
      ∀ t ∈ targets, ∃ i f, input.schema.IsLast t.name i f ∧ t.expr.ty = f.ty ∧
        UpdateItem.Folds input.schema (.ref i f.ty) (c.updates.filter (·.var = t.name)) t.expr := by
  have houtcome := Drafting.outcome_eq_ok.mpr h
  rw [Drafting.outcome_clause] at houtcome
  obtain ⟨r, hstep, hafter⟩ := bind_eq_ok.mp houtcome
  cases hafter
  obtain ⟨entity, input, targets, rfl, htargets, rfl⟩ := Clause.step_update hc hstep
  refine ⟨input, _, entity, targets, rfl, rfl, rfl, rfl, htargets.nodup,
    fun name => htargets.mem_names, htargets.names, fun t ht => ?_⟩
  obtain ⟨i, f, hlast, hfolds⟩ := htargets.made t ht
  exact ⟨i, f, hlast, hfolds.ty_eq, hfolds⟩

/-- Three nodes, two of them under one name. -/
def threeNodes : Plan :=
  ⟨none, .values ⟨["n", "m", "n"].map fun name => ⟨[], [], some name, none, false⟩, [], [], []⟩, [],
    [⟨"n", .node⟩, ⟨"m", .node⟩, ⟨"n", .node⟩], .graph⟩

/-- `SET n.age = 1, m:Seen, n.name = m.name` -/
def mixedSets : Clause :=
  .setting ⟨[.property "n" "age" (.literal (.integer 1)), .labels "m" ["Seen"],
    .property "n" "name" (.property "m" "name")], none⟩

/-- The draft that holds `threeNodes`, over a stored graph. -/
def onThreeNodes : Draft :=
  .between .empty (.entity ⟨⟨1⟩, "g", ⟨0⟩, .graph, []⟩) (some threeNodes) none 0

/-- The items of `n` wrap one another around its last field, past the item of `m`. -/
theorem mixedSets_fold_per_variable :
    ∃ (after : Draft) (p : Plan) (entity : Entity) (targets : List Binding),
      Drafting.clause ⟨0⟩ mixedSets onThreeNodes = .ok () after ∧
      after.stack = [p] ∧ p.op = .modify entity .update targets ∧
      p.fingerprint = "Modify[GRAPH](UPDATE e1:g, m=SET_LABELS($1, [\"Seen\"]), " ++
        "n=SET_PROPERTY(SET_PROPERTY($2, \"age\", 1), \"name\", " ++
        "EXTRACT_PROPERTY($1, \"name\")))[Values[GRAPH](nodes=[(n), (m), (n)], edges=[])]" ∧
      targets.map Binding.name = ["m", "n"] ∧
      ∀ t ∈ targets, ∃ i f, threeNodes.schema.IsLast t.name i f ∧ t.expr.ty = f.ty ∧
        UpdateItem.Folds threeNodes.schema (.ref i f.ty)
          (mixedSets.updates.filter (·.var = t.name)) t.expr := by
  have hrun : (Drafting.outcome (Drafting.clause ⟨0⟩ mixedSets) onThreeNodes).toOption.map
      (fun r => r.2.stack.map Plan.fingerprint) =
        some ["Modify[GRAPH](UPDATE e1:g, m=SET_LABELS($1, [\"Seen\"]), " ++
          "n=SET_PROPERTY(SET_PROPERTY($2, \"age\", 1), \"name\", " ++
          "EXTRACT_PROPERTY($1, \"name\")))[Values[GRAPH](nodes=[(n), (m), (n)], edges=[])]"] := by
    decide +kernel
  obtain ⟨⟨_, after⟩, houtcome, htexts⟩ := toOption_map_eq_some.mp hrun
  have hclause := Drafting.outcome_eq_ok.mp houtcome
  obtain ⟨input, p, entity, targets, htop, hstack, hop, -, -, -, hnames, hfolds⟩ :=
    Drafting.update_folds_per_variable rfl hclause
  cases htop
  rw [hstack, List.map_singleton, List.cons.injEq] at htexts
  have horder : (mixedSets.updates.map UpdateItem.var).dedup = ["m", "n"] := by decide +kernel
  exact ⟨after, p, entity, targets, hclause, hstack, hop, htexts.1, hnames.trans horder, hfolds⟩

end QueryPlan
