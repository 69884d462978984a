import QueryPlan.Proofs.Draft.Endpoints
import QueryPlan.Proofs.Plan.Node

/-!
# What combining leaves behind

An action takes what is queued or bound and puts one node on the stack, in the place of the plan on
top (`Action.Combines`). It can fail at many points, and what it has taken by then is lost. A draft
with nothing to combine, with no graph to write to or with no plan to read is turned down before
anything is taken, and stays as it was (`combining_keeps_discipline`).

`Ends x d Q E` says what both outcomes of a step are like, with the draft that each leaves behind.
It passes through sequencing, so that an action is followed from one step to the next.
-/

namespace QueryPlan

variable {α β : Type}

/-! ## Failures for want of anything to combine -/

/-- The computation does not fail because there is nothing to combine. -/
def NeverEmpty (x : Except Error α) : Prop := ∀ what, x ≠ .error (.emptyOperation what)

namespace NeverEmpty

theorem ok (a : α) : NeverEmpty (.ok a) := nofun

theorem fail {e : Error} (h : ∀ what, e ≠ .emptyOperation what) :
    NeverEmpty (.error e : Except Error α) :=
  fun what heq => h what (Except.error.inj heq)

theorem bind {x : Except Error α} {f : α → Except Error β} (hx : NeverEmpty x)
    (hf : ∀ a, NeverEmpty (f a)) : NeverEmpty (x >>= f) := by
  cases x with
  | ok a => exact hf a
  | error e => exact fail fun what he => hx what (congrArg Except.error he)

theorem require {c : Bool} {e : Error} (h : ∀ what, e ≠ .emptyOperation what) :
    NeverEmpty (QueryPlan.require c e) := by
  cases c with
  | true => exact ok ()
  | false => exact fail h

theorem pairUp {as : List α} {bs : List β} {e : Error} (h : ∀ what, e ≠ .emptyOperation what) :
    NeverEmpty (QueryPlan.pairUp as bs e) := by
  unfold QueryPlan.pairUp
  split
  · exact ok _
  · exact fail h

/-! ### Expressions -/

theorem expect (accepted : Ty → Bool) (expected : String) (e : Expr) :
    NeverEmpty (e.expect accepted expected) := require (by nofun)

theorem expectAll (accepted : Ty → Bool) (expected : String) (es : List Expr) :
    NeverEmpty (Expr.expectAll accepted expected es) := by
  induction es with
  | nil => exact ok ()
  | cons e es ih => exact (expect accepted expected e).bind fun _ => ih

theorem callAnd (ps : List Expr) : NeverEmpty (Expr.call .and ps) := by
  have htype : NeverEmpty (Operator.and.resultType ps) :=
    (require (by nofun)).bind fun _ => (expectAll _ _ ps).bind fun _ => ok _
  exact htype.bind fun _ => ok _

theorem callAdjustEdge (edge : Edge) (left right : Expr) :
    NeverEmpty (Expr.call .adjustEdge [.ofValue (.edge edge), left, right]) := by
  have htype : NeverEmpty (Operator.adjustEdge.resultType [.ofValue (.edge edge), left, right]) :=
    (ok ()).bind fun _ => (expect _ _ left).bind fun _ => (expect _ _ right).bind fun _ => ok _
  exact htype.bind fun _ => ok _

theorem checkAll (schema : Schema) (refs : List (Nat × Ty)) :
    NeverEmpty (QueryPlan.checkAll schema refs) := by
  have hcheck (index : Nat) (ty : Ty) : NeverEmpty (checkRef schema index ty) := by
    unfold checkRef
    split
    · exact require (by nofun)
    · exact fail (by nofun)
  induction refs with
  | nil => exact ok ()
  | cons r rest ih => exact (hcheck r.1 r.2).bind fun _ => ih

/-! ### Plans -/

theorem build (op : Op) (inputs : List Plan) (schema : Schema) (model : Model) :
    NeverEmpty (Plan.build op inputs schema model) := by
  unfold Plan.build
  split
  · exact fail (by nofun)
  · exact ok _

theorem filter (input : Plan) (predicate : Expr) : NeverEmpty (input.filter predicate) :=
  (expect _ _ predicate).bind fun _ => (checkAll _ _).bind fun _ => build _ _ _ _

theorem projectColumns (input : Plan) (columns : List Column) :
    NeverEmpty (input.projectColumns columns) :=
  (checkAll _ _).bind fun _ => build _ _ _ _

theorem patternMatch (input : Plan) (calls : List Expr) (names : List String) :
    NeverEmpty (input.patternMatch calls names) := by
  refine (require (by nofun)).bind fun _ => (pairUp (by nofun)).bind fun pairs => ?_
  unfold Plan.matchBindings
  split
  · exact fail (by nofun)
  · exact (checkAll _ _).bind fun _ => build _ _ _ _

theorem values (v : LiteralRows) : NeverEmpty (Plan.values v) := by
  dsimp only [Plan.values]
  split
  · exact fail (by nofun)
  · split
    · exact fail (by nofun)
    · exact build _ _ _ _

/-- A write has nothing to do if it wants targets and there are none. -/
theorem modify {write : Write} {names : List String} (entity : Entity) (input : Plan)
    (exprs : List Expr) (h : write = .insert ∨ names ≠ []) :
    NeverEmpty (Plan.modify entity input write names exprs) := by
  have htargets (targets : List Binding) :
      NeverEmpty (Plan.modifyTargets entity input write targets) :=
    (checkAll _ _).bind fun _ => build _ _ _ _
  unfold Plan.modify
  split
  · refine (require (by nofun)).bind fun _ => ?_
    exact (pairUp (by nofun)).bind fun _ => htargets _
  · next hwrite =>
      have hnames : (!names.isEmpty) = true := by simpa using h.resolve_left hwrite
      rw [hnames]
      refine (ok ()).bind fun _ => ?_
      exact (pairUp (by nofun)).bind fun _ => htargets _

theorem substitutionScan (catalog : Catalog) (home : NamespaceId) (labels : List String) :
    NeverEmpty (Plan.substitutionScan catalog home labels) := by
  have hscans (entities : List Entity) : NeverEmpty (Plan.scanAll entities) := by
    induction entities with
    | nil => exact ok []
    | cons e es ih => exact (build _ _ _ _).bind fun _ => ih.bind fun _ => ok _
  unfold Plan.substitutionScan
  split
  · exact fail (by nofun)
  · dsimp only
    split
    · exact fail (by nofun)
    · refine (hscans _).bind fun _ => (require (by nofun)).bind fun _ => ?_
      refine (require (by nofun)).bind fun _ => ?_
      dsimp only
      split
      · exact fail (by nofun)
      · exact build _ _ _ _

/-! ### What is queued and bound -/

theorem matchBase (top : Plan) : NeverEmpty (Drafting.matchBase top) := by
  unfold Drafting.matchBase
  split
  · split
    · exact ok _
    · exact fail (by nofun)
  · split
    · exact ok _
    · exact fail (by nofun)

theorem extendBindings (bound : List Binding) (queued : List (Option String × Expr)) :
    NeverEmpty (QueryPlan.extendBindings bound queued) := by
  fun_induction QueryPlan.extendBindings bound queued with
  | case1 => exact ok _
  | case2 => exact fail (by nofun)
  | case3 _ _ _ _ _ ih => exact ih
  | case4 _ _ _ _ _ ih => exact ih

theorem targetsOf (queued : List (Option String × Expr)) :
    NeverEmpty (Drafting.targetsOf queued) := by
  fun_induction Drafting.targetsOf queued with
  | case1 => exact ok _
  | case2 => exact fail (by nofun)
  | case3 _ _ _ ih => exact ih.bind fun _ => ok _

theorem newElements (schema : Schema) (nodes : List (String × Node)) (edges : List BoundEdge) :
    NeverEmpty (QueryPlan.newElements schema nodes edges) := by
  have hedges (n : Nat) : NeverEmpty (newEdges schema n edges) := by
    induction edges generalizing n with
    | nil => exact ok []
    | cons bound rest ih =>
        rw [newEdges, EndpointCase.ends_classify, ok_bind]
        refine (callAdjustEdge _ _ _).bind fun call => ?_
        split
        · exact (ih n).bind fun _ => ok _
        · exact (ih (n + 1)).bind fun _ => ok _
  exact (hedges _).bind fun _ => ok _

end NeverEmpty

namespace Drafting

/-! ## Steps with both outcomes -/

/-- A result and the draft after it satisfy `Q`; an error and the draft left behind satisfy `E`. -/
def Ends (x : Drafting α) (d : Draft) (Q : α → Draft → Prop) (E : Error → Draft → Prop) : Prop :=
  match x d with
  | .ok a after => Q a after
  | .error e after => E e after

section Ends

variable {x : Drafting α} {d after : Draft} {Q : α → Draft → Prop} {E : Error → Draft → Prop}

theorem Ends.result {a : α} (h : Ends x d Q E) (hx : x d = .ok a after) : Q a after := by
  rw [Ends, hx] at h
  exact h

theorem Ends.error {e : Error} (h : Ends x d Q E) (hx : x d = .error e after) : E e after := by
  rw [Ends, hx] at h
  exact h

theorem Ends.mono {R : α → Draft → Prop} {F : Error → Draft → Prop} (h : Ends x d Q E)
    (hQ : ∀ a after, Q a after → R a after) (hE : ∀ e after, E e after → F e after) :
    Ends x d R F := by
  unfold Ends at h ⊢
  split at h
  · exact hQ _ _ h
  · exact hE _ _ h

theorem ends_bind {y : Drafting β} {f : β → Drafting α} :
    Ends (y >>= f) d Q E ↔ Ends y d (fun b mid => Ends (f b) mid Q E) E := by
  change Ends (EStateM.bind y f) d Q E ↔ _
  unfold Ends EStateM.bind
  cases y d <;> rfl

theorem ends_pure {a : α} : Ends (pure a) d Q E ↔ Q a d := Iff.rfl

theorem ends_throw {e : Error} : Ends (throw e) d Q E ↔ E e d := Iff.rfl

theorem ends_get {Q : Draft → Draft → Prop} : Ends get d Q E ↔ Q d d := Iff.rfl

theorem ends_lift {y : Except Error α} :
    Ends (lift y) d Q E ↔ (∀ a, y = .ok a → Q a d) ∧ ∀ e, y = .error e → E e d := by
  cases y with
  | ok a => simp [lift, ends_pure]
  | error e => simp [lift, ends_throw]

end Ends

section Steps

variable {d : Draft} {E : Error → Draft → Prop}

theorem ends_modify {Q : Unit → Draft → Prop} {f : Draft → Draft} :
    Ends (modify f) d Q E ↔ Q () (f d) := Iff.rfl

theorem ends_push {Q : Unit → Draft → Prop} {p : Plan} :
    Ends (push p) d Q E ↔ Q () { d with stack := p :: d.stack } := Iff.rfl

theorem ends_pop {Q : Plan → Draft → Prop} :
    Ends pop d Q E ↔ (∀ p rest, d.stack = p :: rest → Q p { d with stack := rest }) ∧
      (d.stack = [] → E (.unsupportedInput "clause has no input") d) := by
  obtain ⟨catalog, source, stack, pending, nodes, edges, kind, n⟩ := d
  cases stack with
  | nil => exact ⟨fun h => ⟨nofun, fun _ => h⟩, fun h => h.2 rfl⟩
  | cons p rest =>
      refine ⟨fun h => ⟨?_, nofun⟩, fun h => h.1 p rest rfl⟩
      rintro _ _ ⟨⟩
      exact h

theorem ends_drain {Q : List (Option String × Expr) → Draft → Prop} :
    Ends drain d Q E ↔ Q d.pending { d with pending := [] } := Iff.rfl

theorem ends_clearBound {Q : Unit → Draft → Prop} :
    Ends clearBound d Q E ↔ Q () { d with nodes := [], edges := [] } := Iff.rfl

end Steps

/-! ## Guards -/

/-- After the default scan there is a plan on top, and nothing below has changed. -/
theorem ends_defaultScan (d : Draft) :
    Ends defaultScan d (fun _ after => ∃ top, after = { d with stack := top :: d.stack.tail })
      (fun e after => after = d ∧ ∀ what, e ≠ .emptyOperation what) := by
  simp only [defaultScan, ends_bind, ends_get]
  split
  · next hempty =>
      have htail : d.stack.tail = d.stack := by
        rw [List.isEmpty_iff.mp hempty]
        rfl
      rw [htail]
      -- Nothing is pushed unless the scan has been made.
      have hscan {y : Except Error Plan} (hy : NeverEmpty y) :
          Ends (lift y >>= push) d
            (fun _ after => ∃ top, after = { d with stack := top :: d.stack })
            (fun e after => after = d ∧ ∀ what, e ≠ .emptyOperation what) := by
        rw [ends_bind, ends_lift]
        exact ⟨fun p _ => ⟨p, rfl⟩, fun e he => ⟨rfl, fun what hwhat => hy what (hwhat ▸ he)⟩⟩
      split
      · exact hscan (.build _ _ _ _)
      · exact hscan (.substitutionScan _ _ _)
  · next hne =>
      obtain ⟨top, rest, hstack⟩ := List.exists_cons_of_ne_nil (mt List.isEmpty_iff.mpr hne)
      refine ends_pure.mpr ⟨top, ?_⟩
      rw [hstack, List.tail_cons, ← hstack]

/-- Every queued expression becomes a column with a name, so the references to the columns are as
many as the expressions were. -/
theorem namedRefs_fillNames_ne_nil {queue : List (Option String × Expr)} (h : queue ≠ [])
    (start n : Nat) : Schema.namedRefs start (Column.fields (fillNames n queue)) ≠ [] := by
  match queue with
  | [] => exact absurd rfl h
  | (some name, e) :: rest => nofun
  | (none, e) :: rest => nofun

/-- Computing the queue beforehand leaves the draft as it is, or puts one plan in the place of the
top and a queue that is not empty in the place of the queue. -/
theorem ends_projectIfBare (d : Draft) :
    Ends projectIfBare d
      (fun _ after => after = d ∨ ∃ top queue, d.pending ≠ [] ∧ queue ≠ [] ∧
        after = { d with stack := top :: d.stack.tail, pending := queue })
      (fun e _ => d.pending ≠ [] ∧ ∀ what, e ≠ .emptyOperation what) := by
  simp only [projectIfBare, ends_bind, ends_get]
  split
  · next hguard =>
      have hpending : d.pending ≠ [] := by simpa using (Bool.and_eq_true_iff.mp hguard).2
      simp only [ends_bind, ends_pop, ends_drain, ends_lift, ends_modify, ends_push]
      refine ⟨fun input rest hstack => ⟨fun project hproject => ?_, ?_⟩, fun _ => ⟨hpending, nofun⟩⟩
      · obtain rfl := (Plan.yields_projectColumns input _).result hproject
        exact Or.inr ⟨_, _, hpending, namedRefs_fillNames_ne_nil hpending 0 0, by rw [hstack]; rfl⟩
      · exact fun e he => ⟨hpending, fun what hwhat =>
          NeverEmpty.projectColumns input _ what (hwhat ▸ he)⟩
  · exact ends_pure.mpr (Or.inl rfl)

/-! ## Actions -/

/-- What combines the queued and bound parts of a clause into a node: a match, a filter, an insert
of what is bound, or a write of what is queued. Setting and removing properties are both the write
`update`. -/
inductive Action
  | bind
  | restrict
  | create
  | write (write : Write)

namespace Action

def run : Action → Drafting Unit
  | bind => combineMatch
  | restrict => combineFilter
  | create => combineValues
  | write w => combineModify w

/-- Whether the action writes to the graph. -/
def writes : Action → Bool
  | create | write _ => true
  | bind | restrict => false

/-- Whether the action has to have a plan to read. -/
def needsInput : Action → Bool
  | restrict | write _ => true
  | bind | create => false

/-- The operators of the nodes that an action makes. -/
def Makes : Action → Op → Prop
  | bind, op => ∃ bindings, op = .bind bindings
  | restrict, op => ∃ predicate, op = .filter predicate
  | create, op => ∃ entity, op = .modify entity .insert []
  | write w, op => ∃ entity targets, op = .modify entity w targets

/-- What an action leaves of the queue: only an insert does not use it. -/
def queueAfter (d : Draft) : Action → List (Option String × Expr)
  | create => d.pending
  | _ => []

/-- There is nothing to combine. A match of nothing is no such case. -/
def IsVacuous (d : Draft) : Action → Prop
  | bind => False
  | restrict => d.stack.length = 1 ∧ d.pending = []
  | create => d.nodes = [] ∧ d.edges = []
  | write _ => d.pending = []

/-- **One node in the place of the top, and the rest of the draft in order.** -/
structure Combines (a : Action) (before after : Draft) : Prop where
  made : ∃ p, after.stack.head? = some p ∧ a.Makes p.op
  below : after.stack.tail = before.stack.tail
  height : after.stack.length = max 1 before.stack.length
  pending : after.pending = a.queueAfter before
  nodes : after.nodes = []
  edges : after.edges = []
  catalog : after.catalog = before.catalog
  source : after.source = before.source
  kind : after.kind = before.kind
  anonymous : after.anonymous = before.anonymous

/-- An action that fails for want of anything to combine has left the draft as it was. -/
def Spares (a : Action) (before : Draft) (e : Error) (after : Draft) : Prop :=
  ∀ what, e = .emptyOperation what → after = before ∧ a.IsVacuous before

variable {a : Action} {d : Draft}

theorem combines {p : Plan} {rest : List Plan} (hrest : rest = d.stack.tail)
    (hp : a.Makes p.op) :
    a.Combines d { d with stack := p :: rest, pending := a.queueAfter d, nodes := [], edges := [] }
    where
  made := ⟨p, rfl, hp⟩
  below := hrest
  height := by
    subst hrest
    cases d.stack with
    | nil => rfl
    | cons top rest => simp
  pending := rfl
  nodes := rfl
  edges := rfl
  catalog := rfl
  source := rfl
  kind := rfl
  anonymous := rfl

/-- A failure for any other reason may leave what it likes. -/
theorem spares_of_ne {e : Error} {after : Draft} (h : ∀ what, e ≠ .emptyOperation what) :
    a.Spares d e after :=
  fun what he => absurd he (h what)

theorem spares_of_neverEmpty {x : Except Error α} {after : Draft} (h : NeverEmpty x) (e : Error)
    (he : x = .error e) : a.Spares d e after :=
  spares_of_ne fun what hwhat => h what (hwhat ▸ he)

/-- What an action does to a draft, whether it fails or not. -/
abbrev Disciplined (a : Action) (d : Draft) : Prop :=
  Ends a.run d (fun _ after => a.Combines d after) (a.Spares d)

theorem bind_disciplined (d : Draft) : bind.Disciplined d := by
  refine ends_bind.mpr ((ends_defaultScan d).mono ?_ fun e after h => spares_of_ne h.2)
  rintro _ _ ⟨top, rfl⟩
  simp only [ends_bind, ends_pop]
  refine ⟨?_, nofun⟩
  rintro _ _ ⟨⟩
  split
  · exact ends_bind.mpr (spares_of_ne nofun)
  · simp only [ends_bind, ends_lift, ends_drain, ends_push, ends_clearBound]
    refine ⟨fun r _ => ⟨fun bindings _ => ⟨fun p hp => ?_, ?_⟩, ?_⟩, ?_⟩
    · obtain rfl := (Plan.yields_patternMatch _ bindings).result hp
      exact combines rfl ⟨bindings, rfl⟩
    · exact spares_of_neverEmpty (.patternMatch _ _ _)
    · exact spares_of_neverEmpty (.extendBindings _ _)
    · exact spares_of_neverEmpty (.matchBase _)

/-- Predicates are joined unless there are none. -/
theorem eq_nil_of_conjunction {ps : List Expr} {what : String}
    (h : conjunction ps = .error (.emptyOperation what)) : ps = [] := by
  match ps with
  | [] => rfl
  | [p] => cases h
  | p :: q :: rest => exact absurd h (NeverEmpty.callAnd _ what)

theorem restrict_disciplined (d : Draft) : restrict.Disciplined d := by
  change Ends combineFilter d _ _
  simp only [combineFilter, ends_bind, ends_get]
  split
  · exact ends_bind.mpr (spares_of_ne nofun)
  · next hheight =>
      refine ends_bind.mpr ((ends_projectIfBare d).mono ?_ fun e _ h => spares_of_ne h.2)
      intro _ mid hmid
      simp only [ends_bind, ends_lift, ends_drain, ends_push, ends_pop, ends_clearBound]
      refine ⟨fun condition _ => ⟨fun input rest hstack => ⟨fun p hp => ?_, ?_⟩, fun _ => ?_⟩, ?_⟩
      · obtain rfl := (Plan.yields_filter _ _).result hp
        rcases hmid with rfl | ⟨top, queue, -, -, rfl⟩
        · exact combines (by rw [hstack]; rfl) ⟨condition, rfl⟩
        · cases hstack
          exact combines rfl ⟨condition, rfl⟩
      · exact spares_of_neverEmpty (.filter _ _)
      · exact spares_of_ne nofun
      · -- The queue is empty here only if it was to begin with, and then nothing has been touched.
        rintro e he what rfl
        have hqueue : mid.pending = [] := List.map_eq_nil_iff.mp (eq_nil_of_conjunction he)
        rcases hmid with rfl | ⟨top, queue, -, hne, rfl⟩
        · exact ⟨hqueue ▸ rfl, hheight, hqueue⟩
        · exact absurd hqueue hne
  · exact ends_bind.mpr (spares_of_ne nofun)

theorem neverEmpty_target (d : Draft) : NeverEmpty d.target := by
  unfold Draft.target
  split
  · exact .ok _
  · exact .fail nofun

/-- Each queued expression becomes a target. -/
theorem targets_ne_nil {queued : List (Option String × Expr)} {targets : List Binding}
    (h : targetsOf queued = .ok targets) (hne : queued ≠ []) : targets ≠ [] := by
  match queued with
  | [] => exact absurd rfl hne
  | (none, e) :: rest => cases h
  | (some name, e) :: rest =>
      obtain ⟨others, -, h⟩ := bind_eq_ok.mp h
      cases h
      nofun

theorem write_disciplined (w : Write) (d : Draft) : (write w).Disciplined d := by
  change Ends (combineModify w) d _ _
  simp only [combineModify, ends_bind, ends_get]
  split
  · next hempty => exact ends_bind.mpr fun what _ => ⟨rfl, List.isEmpty_iff.mp hempty⟩
  · next hne =>
      have hpending : d.pending ≠ [] := mt List.isEmpty_iff.mpr hne
      simp only [ends_bind, ends_lift, ends_drain, ends_push, ends_pop, ends_clearBound]
      refine ⟨fun entity _ => ⟨fun input rest hstack => ⟨fun targets htargets =>
        ⟨fun p hp => ?_, ?_⟩, ?_⟩, fun _ => ?_⟩, ?_⟩
      · obtain rfl := (Plan.yields_modify _ _ _ targets).result hp
        exact combines (by rw [hstack]; rfl) ⟨entity, targets, rfl⟩
      · have hnames : targets.map Binding.name ≠ [] :=
          mt List.map_eq_nil_iff.mp (targets_ne_nil htargets hpending)
        exact spares_of_neverEmpty (.modify _ _ _ (Or.inr hnames))
      · exact spares_of_neverEmpty (.targetsOf _)
      · exact spares_of_ne nofun
      · exact spares_of_neverEmpty (neverEmpty_target d)

theorem create_disciplined (d : Draft) : create.Disciplined d := by
  change Ends combineValues d _ _
  -- What is inserted differs with the stack; the insert itself does not.
  have hinsert (entity : Entity) (input : Plan) (rest : List Plan) (hrest : rest = d.stack.tail) :
      Ends (do push (← lift (Plan.modify entity input .insert [] [])); clearBound)
        { d with stack := rest, nodes := [], edges := [] } (fun _ after => create.Combines d after)
        (create.Spares d) := by
    simp only [ends_bind, ends_lift, ends_push, ends_clearBound]
    refine ⟨fun p hp => ?_, spares_of_neverEmpty (.modify _ _ _ (Or.inl rfl))⟩
    obtain rfl := (Plan.yields_modify entity input .insert []).result hp
    exact combines hrest ⟨entity, rfl⟩
  simp only [combineValues, ends_bind, ends_get]
  split
  · next hempty =>
      obtain ⟨hnodes, hedges⟩ := Bool.and_eq_true_iff.mp hempty
      exact ends_bind.mpr fun what _ =>
        ⟨rfl, List.isEmpty_iff.mp hnodes, List.isEmpty_iff.mp hedges⟩
  · rw [ends_bind, ends_lift]
    refine ⟨fun entity _ => ends_bind.mpr ?_, spares_of_neverEmpty (neverEmpty_target d)⟩
    rw [ends_clearBound]
    split
    · next hstack =>
        refine ends_bind.mpr (ends_lift.mpr ⟨fun input _ => ?_, spares_of_neverEmpty (.values _)⟩)
        have hrest : d.stack = d.stack.tail := by rw [hstack]; rfl
        exact hinsert entity input d.stack hrest
    · next top rest hstack =>
        refine ends_bind.mpr (ends_modify.mpr (ends_bind.mpr
          (ends_lift.mpr ⟨fun columns _ => ?_, ?_⟩)))
        · refine ends_bind.mpr (ends_lift.mpr ⟨fun input _ => ?_, ?_⟩)
          · exact hinsert entity input rest (by rw [hstack]; rfl)
          · exact spares_of_neverEmpty (.projectColumns _ _)
        · exact spares_of_neverEmpty (.newElements _ _ _)

theorem disciplined (a : Action) (d : Draft) : a.Disciplined d := by
  cases a with
  | bind => exact bind_disciplined d
  | restrict => exact restrict_disciplined d
  | create => exact create_disciplined d
  | write w => exact write_disciplined w d

/-! ## Refusals -/

/-- The action fails before it has touched the draft. -/
abbrev Refuses (a : Action) (d : Draft) (P : Error → Prop) : Prop :=
  Ends a.run d (fun _ _ => False) fun e after => after = d ∧ P e

theorem Refuses.run_eq {P : Error → Prop} (h : a.Refuses d P) :
    ∃ e, P e ∧ a.run d = .error e d := by
  cases hrun : a.run d with
  | ok u after => exact (h.result hrun).elim
  | error e after =>
      obtain ⟨rfl, he⟩ := h.error hrun
      exact ⟨e, he, rfl⟩

theorem refuses_of_isVacuous (h : a.IsVacuous d) :
    a.Refuses d fun e => ∃ what, e = .emptyOperation what := by
  cases a with
  | bind => exact h.elim
  | restrict =>
      obtain ⟨hheight, hpending⟩ := h
      change Ends combineFilter d _ _
      simp only [combineFilter, ends_bind, ends_get, hheight]
      refine ends_bind.mpr ((ends_projectIfBare d).mono ?_ fun _ _ h => absurd hpending h.1)
      rintro _ mid (rfl | ⟨_, _, hne, -, -⟩)
      · simp only [ends_drain, hpending]
        exact ⟨hpending ▸ rfl, _, rfl⟩
      · exact absurd hpending hne
  | create =>
      obtain ⟨hnodes, hedges⟩ := h
      change Ends combineValues d _ _
      simp only [combineValues, ends_bind, ends_get, hnodes, hedges]
      exact ⟨rfl, _, rfl⟩
  | write w =>
      change Ends (combineModify w) d _ _
      simp only [combineModify, ends_bind, ends_get, show d.pending = [] from h]
      exact ⟨rfl, _, rfl⟩

theorem refuses_of_substitution {home : NamespaceId} {labels : List String}
    (hsource : d.source = .substitution home labels) (hwrites : a.writes = true)
    (hwork : ¬a.IsVacuous d) :
    a.Refuses d (· = .unsupportedOperation
      ("cannot modify the substitution graph of namespace " ++ home.text)) := by
  have htarget : d.target = .error (.unsupportedOperation
      ("cannot modify the substitution graph of namespace " ++ home.text)) := by
    rw [Draft.target, hsource]
  cases a with
  | bind | restrict => cases hwrites
  | create =>
      change Ends combineValues d _ _
      simp only [combineValues, ends_bind, ends_get, htarget]
      split
      · next hempty =>
          obtain ⟨hnodes, hedges⟩ := Bool.and_eq_true_iff.mp hempty
          exact absurd ⟨List.isEmpty_iff.mp hnodes, List.isEmpty_iff.mp hedges⟩ hwork
      · exact ⟨rfl, rfl⟩
  | write w =>
      change Ends (combineModify w) d _ _
      simp only [combineModify, ends_bind, ends_get, htarget]
      split
      · next hempty => exact absurd (List.isEmpty_iff.mp hempty) hwork
      · exact ⟨rfl, rfl⟩

/-- A match scans the graph if there is nothing to read, and stops there if it cannot. -/
theorem bind_refuses_of_scan {home : NamespaceId} {labels : List String} {e : Error}
    (hsource : d.source = .substitution home labels) (hstack : d.stack = [])
    (hscan : Plan.substitutionScan d.catalog home labels = .error e) : bind.Refuses d (· = e) := by
  change Ends combineMatch d _ _
  simp only [combineMatch, defaultScan, ends_bind, ends_get, hstack, hsource, hscan]
  exact ⟨rfl, rfl⟩

theorem refuses_of_no_input (hstack : d.stack = []) (hneeds : a.needsInput = true) :
    a.Refuses d fun _ => True := by
  cases a with
  | bind | create => cases hneeds
  | restrict =>
      change Ends combineFilter d _ _
      simp only [combineFilter, ends_bind, ends_get, hstack]
      exact ⟨rfl, trivial⟩
  | write w =>
      change Ends (combineModify w) d _ _
      simp only [combineModify, ends_bind, ends_get]
      split
      · exact ⟨rfl, trivial⟩
      · refine ends_bind.mpr (ends_lift.mpr ⟨fun entity _ => ?_, fun e _ => ⟨rfl, trivial⟩⟩)
        refine ends_bind.mpr (ends_pop.mpr ⟨fun p rest hcons => ?_, fun _ => ⟨rfl, trivial⟩⟩)
        rw [hstack] at hcons
        cases hcons

end Action

/-- **Combining keeps the discipline of drafts.** On every draft, whatever steps led to it and
whether these failed or not:

- An action that succeeds puts one node of its own in the place of the top of the stack, or on the
  empty stack. What is below stays, and so do the source, the kind and the counter. Nothing stays
  bound, and nothing queued either, except that an insert does not look at the queue.
- An action fails for want of anything to combine exactly if there is nothing to combine, and leaves
  the draft as it was.
- So does a write where the graph is made up, a match that cannot make it up, and a filter or a
  write of what is queued where there is no plan to read. -/
theorem combining_keeps_discipline (a : Action) (d : Draft) :
    (∀ after, a.run d = .ok () after → a.Combines d after) ∧
    (∀ what after, a.run d = .error (.emptyOperation what) after → after = d ∧ a.IsVacuous d) ∧
    (a.IsVacuous d → ∃ what, a.run d = .error (.emptyOperation what) d) ∧
    (∀ home labels, d.source = .substitution home labels → a.writes = true → ¬a.IsVacuous d →
      a.run d = .error (.unsupportedOperation
        ("cannot modify the substitution graph of namespace " ++ home.text)) d) ∧
    (∀ home labels e, d.source = .substitution home labels → d.stack = [] →
      Plan.substitutionScan d.catalog home labels = .error e → a = .bind →
      a.run d = .error e d) ∧
    (d.stack = [] → a.needsInput = true → ∃ e, a.run d = .error e d) := by
  refine ⟨fun after h => (a.disciplined d).result h, fun what after h =>
    (a.disciplined d).error h what rfl, fun h => ?_, fun home labels hsource hwrites hwork => ?_,
    fun home labels e hsource hstack hscan ha => ?_, fun hstack hneeds => ?_⟩
  · obtain ⟨_, ⟨what, rfl⟩, hrun⟩ := (Action.refuses_of_isVacuous h).run_eq
    exact ⟨what, hrun⟩
  · obtain ⟨_, rfl, hrun⟩ := (Action.refuses_of_substitution hsource hwrites hwork).run_eq
    exact hrun
  · subst ha
    obtain ⟨_, rfl, hrun⟩ := (Action.bind_refuses_of_scan hsource hstack hscan).run_eq
    exact hrun
  · obtain ⟨e, -, hrun⟩ := (Action.refuses_of_no_input hstack hneeds).run_eq
    exact ⟨e, hrun⟩

/-- Two scans of a graph, a node to match and a node to create, in the middle of a query. -/
def crowded : Draft where
  catalog := .withDefaultGraph
  source := .entity ⟨⟨1⟩, "graph", ⟨0⟩, .graph, []⟩
  stack := List.replicate 2 (.scanNode ⟨⟨1⟩, "graph", ⟨0⟩, .graph, []⟩)
  pending := [(some "n", .apply .patternMatch [.ref 0 .graph,
    .ofValue (.path ⟨[.ofPattern ["Person"] [] (some "n")], [], none⟩), .ofString "n"] .node)]
  nodes := [("m", .ofPattern ["Tag"] [] (some "m"))]
  edges := []
  kind := some .select
  anonymous := 2

/-- A match takes the upper scan and what is queued, and forgets what is bound. The draft refuses a
write with nothing queued, a write or a match over a graph that cannot be made up, and a filter of
nothing, and is the same afterwards. -/
theorem crowded_kept_in_order :
    (∃ after, Action.bind.run crowded = .ok () after ∧ after.stack.length = 2 ∧
      after.stack.tail = crowded.stack.tail ∧ after.pending = [] ∧ after.nodes = [] ∧
      after.anonymous = 2) ∧
    (∃ what after, (Action.write .update).run { crowded with pending := [] } =
      .error (.emptyOperation what) after ∧ after = { crowded with pending := [] }) ∧
    (Action.write .delete).run { crowded with source := .substitution ⟨7⟩ [] } =
      .error (.unsupportedOperation "cannot modify the substitution graph of namespace ns7")
        { crowded with source := .substitution ⟨7⟩ [] } ∧
    Action.bind.run { crowded with source := .substitution ⟨7⟩ [], stack := [] } =
      .error (.unknownEntity "ns7") { crowded with source := .substitution ⟨7⟩ [], stack := [] } ∧
    ∃ e, Action.restrict.run { crowded with stack := [] } =
      .error e { crowded with stack := [] } := by
  refine ⟨?_, ?_, ?_, ?_, ?_⟩
  · obtain ⟨after, hrun⟩ : ∃ after, Action.bind.run crowded = .ok () after := ⟨_, rfl⟩
    have hcombines := (combining_keeps_discipline .bind crowded).1 after hrun
    exact ⟨after, hrun, hcombines.height, hcombines.below, hcombines.pending, hcombines.nodes,
      hcombines.anonymous⟩
  · have hdiscipline := combining_keeps_discipline (.write .update) { crowded with pending := [] }
    obtain ⟨what, hrun⟩ := hdiscipline.2.2.1 rfl
    exact ⟨what, _, hrun, (hdiscipline.2.1 what _ hrun).1⟩
  · exact (combining_keeps_discipline (.write .delete) _).2.2.2.1 ⟨7⟩ [] rfl rfl nofun
  · exact (combining_keeps_discipline .bind _).2.2.2.2.1 ⟨7⟩ [] _ rfl rfl rfl rfl
  · exact (combining_keeps_discipline .restrict _).2.2.2.2.2 rfl rfl

end Drafting

end QueryPlan
