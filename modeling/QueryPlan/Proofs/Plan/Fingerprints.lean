import QueryPlan.Proofs.Compiler.Transparency
import QueryPlan.Proofs.Plan.Payloads
import QueryPlan.Proofs.Plan.Reparenting
import QueryPlan.Proofs.Plan.WellFormed

/-!
# Fingerprints that tell plans apart

The fingerprint of a plan shows the plan, tags apart, if its names can be read off
(`Plan.Readable`) and each of its nodes comes out of its constructor as it is (`Plan.WellBuilt`).
What a fingerprint leaves out follows from the rest: the types that expressions record follow from
the schemas of the inputs, and the schema of a node from its payload and its inputs.
-/

namespace QueryPlan

open Text

/-! ## Operators -/

namespace Op

/-- The operator without the types that its expressions record. -/
def untyped : Op → Op
  | filter predicate => filter predicate.untyped
  | project columns => project (columns.map Column.untyped)
  | bind bindings => bind (bindings.map Binding.untyped)
  | modify entity write targets => modify entity write (targets.map Binding.untyped)
  | call c => call c.untyped
  | op => op

@[simp] theorem isTransform_untyped (op : Op) : op.untyped.isTransform = op.isTransform := by
  cases op <;> rfl

/-- The names that stand in the payload unquoted can be read off, and so can the expressions. -/
def Readable (catalog : Catalog) : Op → Prop
  | scan entity => entity.KnownTo catalog
  | filter predicate => predicate.Readable
  | project columns => ∀ c ∈ columns, c.expr.Readable
  | bind bindings => ∀ b ∈ bindings, b.Readable
  | aggregate _ calls => ∀ a ∈ calls, isTitle a.name = true
  | modify entity _ targets => entity.KnownTo catalog ∧ ∀ b ∈ targets, b.Readable
  | unwind _ asName => isPlain asName = true
  | values rows => rows.PlainlyNamed
  | call c => c.Readable
  | transform _ => True
  | sort _ _ _ => True

/-- A bound of a sort as it stands in texts. -/
def boundText (keyword : String) (bound : Option Nat) : String :=
  if bound.isSome then ", " ++ keyword ++ "=" ++ bound.elim "" toString else ""

theorem payload_sort (keys : List SortKey) (offset limit : Option Nat) :
    (sort keys offset limit).payload = commas (keys.map SortKey.text) ++
      boundText "offset" offset ++ boundText "limit" limit := by
  cases offset <;> cases limit <;> rfl

/-- What can come after the keys of a sort: a bound, or the closing bracket. -/
def EndsKeys (t : List Char) : Prop :=
  Follows (· == ')') t ∨ ∃ c u, t = ',' :: ' ' :: c :: u ∧ c ≠ '$'

theorem endsKeys_bounds (offset limit : Option Nat) {s : List Char} (hs : Follows (· == ')') s) :
    EndsKeys ((boundText "offset" offset).toList ++ ((boundText "limit" limit).toList ++ s)) := by
  cases offset with
  | some n => exact Or.inr ⟨'o', _, by simp [boundText]; rfl, by decide⟩
  | none =>
      cases limit with
      | some n => exact Or.inr ⟨'l', _, by simp [boundText]; rfl, by decide⟩
      | none => exact Or.inl hs

theorem shows_limit (limit : Option Nat) :
    Shows (boundText "limit") id (fun _ => True) (Follows (· == ')')) limit := by
  have hdigits : Shows (fun n : Option Nat => n.elim "" toString) id (fun _ => True)
      (Follows (· == ')')) limit :=
    (Value.shows_optionNat limit).mono (fun _ => id) fun _ hs => hs.of_mark rfl
  refine shows_optional ',' none (g := fun n => ", limit=" ++ n.elim "" toString) ?_ ?_ ?_ trivial
    (hdigits.behind ", limit=")
  · intro n _
    cases n with
    | none => exact Or.inl ⟨rfl, rfl⟩
    | some n => exact Or.inr rfl
  · intro n
    simp
  · exact fun s hs => hs.of_mark rfl

theorem shows_bounds (offset limit : Option Nat) :
    Shows (fun x : Option Nat × Option Nat => boundText "offset" x.1 ++ boundText "limit" x.2) id
      (fun _ => True) (Follows (· == ')')) (offset, limit) := by
  -- A limit does not begin like an offset.
  have hnot (n : Nat) (limit : Option Nat) {s t : List Char} (ht : Follows (· == ')') t) :
      (boundText "offset" (some n)).toList ++ s ≠ (boundText "limit" limit).toList ++ t := by
    intro heq
    cases limit with
    | some m => simp [boundText] at heq
    | none =>
        have hcomma : (boundText "offset" (some n)).toList ++ s = t := heq
        rw [← hcomma] at ht
        simp [boundText] at ht
  rintro ⟨offset', limit'⟩ s t - hs ht heq
  simp only [String.toList_append, List.append_assoc] at heq
  cases offset with
  | none =>
      cases offset' with
      | none =>
          obtain ⟨hlimit, heq⟩ := (shows_limit limit).read (List.append_cancel_left heq) trivial
            hs ht
          exact ⟨congrArg (Prod.mk none) hlimit, heq⟩
      | some n => exact absurd heq.symm (hnot n limit hs)
  | some n =>
      cases offset' with
      | none => exact absurd heq (hnot n limit' ht)
      | some n' =>
          have htext (n : Nat) : boundText "offset" (some n) = ", offset=" ++ toString n := rfl
          have hdigit (limit : Option Nat) {u : List Char} (hu : Follows (· == ')') u) :
              Follows (!Char.isDigit ·) ((boundText "limit" limit).toList ++ u) := by
            cases limit with
            | none => exact hu.of_mark rfl
            | some m => simp [boundText]
          simp only [htext, String.toList_append, List.append_assoc] at heq
          obtain ⟨hoffset, heq⟩ := (shows_nat n).read (List.append_cancel_left heq) trivial
            (hdigit limit hs) (hdigit limit' ht)
          obtain ⟨hlimit, heq⟩ := (shows_limit limit).read heq trivial hs ht
          exact ⟨congrArg₂ (fun n m => (some n, m)) hoffset hlimit, heq⟩

theorem shows_keys (keys : List SortKey) :
    Shows (fun keys : List SortKey => commas (keys.map SortKey.text)) (List.map id)
      (fun keys => ∀ key ∈ keys, True) EndsKeys keys := by
  have htext (k : SortKey) : k.text = "$" ++ toString k.index ++ " " ++ k.order.text := rfl
  refine shows_intercalate (fun _ => rfl) (fun t ht => ⟨?_, ?_⟩) ?_ fun k _ =>
    ⟨trivial, k.shows_text⟩
  · rcases ht with hclose | ⟨c, u, rfl, -⟩
    · exact hclose.of_mark rfl
    · rfl
  · rintro k s - - rfl
    rcases ht with hclose | ⟨c, u, heq, hc⟩
    · simp at hclose
    · simp [htext] at heq
      exact hc heq.1.symm
  · rintro t k s ht - - rfl
    rcases ht with hclose | ⟨c, u, heq, -⟩
    · simp [htext] at hclose
    · simp [htext] at heq

theorem shows_sort (keys : List SortKey) (offset limit : Option Nat) :
    Shows (fun x : List SortKey × Option Nat × Option Nat => (sort x.1 x.2.1 x.2.2).payload)
      (fun x => sort x.1 x.2.1 x.2.2) (fun _ => True) (Follows (· == ')'))
      (keys, offset, limit) := by
  rintro ⟨keys', offset', limit'⟩ s t - hs ht heq
  simp only [payload_sort, String.toList_append, List.append_assoc] at heq
  obtain ⟨hkeys, heq⟩ := (shows_keys keys).read heq (fun _ _ => trivial)
    (endsKeys_bounds offset limit hs) (endsKeys_bounds offset' limit' ht)
  rw [← List.append_assoc, ← List.append_assoc, ← String.toList_append,
    ← String.toList_append] at heq
  obtain ⟨hbounds, heq⟩ := (shows_bounds offset limit).read (b := (offset', limit')) heq trivial
    hs ht
  rw [List.map_id, List.map_id] at hkeys
  exact ⟨congrArg₂ (fun k x => sort k x.1 x.2) hkeys hbounds, heq⟩

theorem shows_aggregate (keys : List Nat) {calls : List Aggregate}
    (h : ∀ a ∈ calls, isTitle a.name = true) :
    Shows (fun x : List Nat × List Aggregate => (aggregate x.1 x.2).payload)
      (fun x => aggregate x.1 x.2) (fun x => ∀ a ∈ x.2, isTitle a.name = true) (fun _ => True)
      (keys, calls) := by
  have hkeys : Shows (fun keys : List Nat => commas (keys.map toString)) (List.map id)
      (fun keys => ∀ key ∈ keys, True) (Follows (· == ']')) keys := by
    refine shows_commas isEnd _ (by decide) ?_ fun n _ => ⟨trivial, ?_⟩
    · exact fun n s _ _ => (follows_plain (isPlain_toString_nat n) fun c =>
        bne_of_not_isMark rfl).append s
    · exact (shows_nat n).mono (fun _ => id) fun s hs => hs.mono (forall_isEnd _ (by decide))
  have hcalls := shows_commas endsTitle ']' (by decide) (fun a s _ _ => Aggregate.follows_text a s)
    fun a (ha : a ∈ calls) => ⟨h a ha, Aggregate.shows_text (h a ha)⟩
  rintro ⟨keys', calls'⟩ s t h' - - heq
  simp only [payload, String.toList_append, List.append_assoc] at heq
  obtain ⟨hkey, heq⟩ := hkeys.read (List.append_cancel_left heq) (fun _ _ => trivial) rfl rfl
  obtain ⟨hcall, heq⟩ := hcalls.read (List.append_cancel_left heq) h' rfl rfl
  rw [List.map_id, List.map_id] at hkey hcall
  exact ⟨congrArg₂ aggregate hkey hcall, List.append_cancel_left heq⟩

theorem shows_modify {catalog : Catalog} {entity : Entity} (write : Write) {targets : List Binding}
    (hentity : entity.KnownTo catalog) (h : ∀ b ∈ targets, b.Readable) :
    Shows (fun x : Entity × Write × List Binding => (modify x.1 x.2.1 x.2.2).payload)
      (fun x => (modify x.1 x.2.1 x.2.2).untyped)
      (fun x => x.1.KnownTo catalog ∧ ∀ b ∈ x.2.2, b.Readable) (Follows (· == ')'))
      (entity, write, targets) := by
  have htargets := shows_joinBehind ", " (fun _ => rfl)
    fun b (hb : b ∈ targets) => ⟨h b hb, Binding.shows_text (h b hb)⟩
  have hstop {u : List Char} (hu : Follows (· == ')') u) :
      EndsItems (", " ++ Binding.text ·) Binding.Readable (Follows isEnd) u :=
    endsItems_behind (c := ',') rfl (hu.of_mark rfl) (hu.of_mark rfl)
  rintro ⟨entity', write', targets'⟩ s t ⟨hentity', h'⟩ hs ht heq
  simp only [payload, String.toList_append, List.append_assoc] at heq
  obtain ⟨hwrite, heq⟩ := (Write.shows_text write).read heq trivial rfl rfl
  obtain ⟨hknown, heq⟩ := (Entity.shows_text hentity).read (List.append_cancel_left heq) hentity'
    trivial trivial
  obtain ⟨hsame, heq⟩ := htargets.read heq h' (hstop hs) (hstop ht)
  refine ⟨?_, heq⟩
  dsimp only [untyped, id] at hwrite hknown ⊢
  rw [hwrite, hknown, hsame]

/-- **Payloads can be read off**, up to types, in front of the bracket that closes them. -/
theorem shows_payload {catalog : Catalog} {op op' : Op} (h : op.Readable catalog)
    (h' : op'.Readable catalog) (hkind : op.kind = op'.kind) {s t : List Char}
    (heq : op.payload.toList ++ s = op'.payload.toList ++ t) (hs : Follows (· == ')') s)
    (ht : Follows (· == ')') t) : op.untyped = op'.untyped ∧ s = t := by
  cases op with
  | scan entity =>
      cases op' with
      | scan entity' =>
          obtain ⟨hsame, heq⟩ := (Entity.shows_text h).read heq h' trivial trivial
          exact ⟨congrArg scan hsame, heq⟩
      | _ => simp [kind] at hkind
  | filter predicate =>
      cases op' with
      | filter predicate' =>
          obtain ⟨hsame, heq⟩ := (Expr.Readable.shows h).read heq h' (hs.of_mark rfl)
            (ht.of_mark rfl)
          exact ⟨congrArg filter hsame, heq⟩
      | _ => simp [kind] at hkind
  | project columns =>
      cases op' with
      | project columns' =>
          have hcolumns := shows_commas isEnd ')' (by decide)
            (fun c s _ _ => Column.follows_text c s)
            fun c (hc : c ∈ columns) => ⟨h c hc, Column.shows_text (h c hc)⟩
          obtain ⟨hsame, heq⟩ := hcolumns.read heq h' hs ht
          exact ⟨congrArg project hsame, heq⟩
      | _ => simp [kind] at hkind
  | bind bindings =>
      cases op' with
      | bind bindings' =>
          have hbindings := shows_commas isEnd ')' (by decide)
            (fun b s hb _ => Binding.follows_text hb s)
            fun b (hb : b ∈ bindings) => ⟨h b hb, Binding.shows_text (h b hb)⟩
          obtain ⟨hsame, heq⟩ := hbindings.read heq h' hs ht
          exact ⟨congrArg bind hsame, heq⟩
      | _ => simp [kind] at hkind
  | aggregate keys calls =>
      cases op' with
      | aggregate keys' calls' =>
          exact (shows_aggregate keys h).read (b := (keys', calls')) heq h' trivial trivial
      | _ => simp [kind] at hkind
  | modify entity write targets =>
      cases op' with
      | modify entity' write' targets' =>
          exact (shows_modify write h.1 h.2).read (b := (entity', write', targets')) heq h' hs ht
      | _ => simp [kind] at hkind
  | unwind index asName =>
      cases op' with
      | unwind index' asName' =>
          have htext (i : Nat) (x : String) :
              (unwind i x).payload = positionText i ++ " AS " ++ x := rfl
          simp only [htext, String.toList_append, List.append_assoc] at heq
          obtain ⟨hindex, heq⟩ := (shows_position index).read heq trivial rfl rfl
          obtain ⟨hname, heq⟩ := (shows_plain h).read (List.append_cancel_left heq) h'
            (hs.of_mark rfl) (ht.of_mark rfl)
          exact ⟨congrArg₂ unwind hindex hname, heq⟩
      | _ => simp [kind] at hkind
  | values rows =>
      cases op' with
      | values rows' =>
          obtain ⟨hsame, heq⟩ := (LiteralRows.shows_text h).read heq h' hs ht
          exact ⟨congrArg values hsame, heq⟩
      | _ => simp [kind] at hkind
  | call c =>
      cases op' with
      | call c' =>
          obtain ⟨hsame, heq⟩ := (ProcedureCall.shows_text h).read heq h' hs ht
          exact ⟨congrArg call hsame, heq⟩
      | _ => simp [kind] at hkind
  | transform c =>
      cases op' with
      | transform c' =>
          obtain ⟨hsame, heq⟩ := (Conversion.shows_text c).read heq trivial trivial trivial
          exact ⟨congrArg transform hsame, heq⟩
      | _ => simp [kind] at hkind
  | sort keys offset limit =>
      cases op' with
      | sort keys' offset' limit' =>
          exact (shows_sort keys offset limit).read (b := (keys', offset', limit')) heq trivial
            hs ht
      | _ => simp [kind] at hkind

theorem Readable.exprs {catalog : Catalog} {op : Op} (h : op.Readable catalog) :
    ∀ e ∈ op.exprs, e.Readable := by
  cases op with
  | filter predicate => exact List.forall_mem_singleton.mpr h
  | project columns => exact List.forall_mem_map.mpr h
  | bind bindings => exact List.forall_mem_map.mpr fun b hb => (h b hb).expr
  | modify entity write targets => exact List.forall_mem_map.mpr fun b hb => (h.2 b hb).expr
  | call c => exact h.arguments
  | _ => exact List.forall_mem_nil _

/-- Payloads over well-typed expressions over one schema are equal if they are equal up to types. -/
theorem eq_of_untyped_eq {schema : Schema} {op op' : Op}
    (h : ∀ e ∈ op.exprs, e.WellTyped ∧ e.Fits schema)
    (h' : ∀ e ∈ op'.exprs, e.WellTyped ∧ e.Fits schema) (heq : op.untyped = op'.untyped) :
    op = op' := by
  have hexpr {e e' : Expr} (he : e.WellTyped ∧ e.Fits schema) (he' : e'.WellTyped ∧ e'.Fits schema)
      (hsame : e.untyped = e'.untyped) : e = e' :=
    Expr.eq_of_untyped_eq he.1 he'.1 he.2 he'.2 hsame
  have hbindings {bs bs' : List Binding}
      (hbs : ∀ e ∈ bs.map Binding.expr, e.WellTyped ∧ e.Fits schema)
      (hbs' : ∀ e ∈ bs'.map Binding.expr, e.WellTyped ∧ e.Fits schema)
      (hsame : bs.map Binding.untyped = bs'.map Binding.untyped) : bs = bs' := by
    refine eq_of_map_eq ?_ hsame
    rintro ⟨name, e⟩ hb ⟨name', e'⟩ hb' hsame
    obtain ⟨hname, he⟩ := Binding.mk.inj hsame
    exact congrArg₂ Binding.mk hname (hexpr (hbs e (List.mem_map_of_mem hb))
      (hbs' e' (List.mem_map_of_mem hb')) he)
  cases op with
  | filter predicate =>
      cases op' with
      | filter predicate' =>
          exact congrArg filter (hexpr (h predicate List.mem_cons_self)
            (h' predicate' List.mem_cons_self) (filter.inj heq))
      | _ => cases heq
  | project columns =>
      cases op' with
      | project columns' =>
          refine congrArg project (eq_of_map_eq ?_ (project.inj heq))
          rintro ⟨name, e⟩ hc ⟨name', e'⟩ hc' hsame
          obtain ⟨hname, he⟩ := Column.mk.inj hsame
          exact congrArg₂ Column.mk hname (hexpr (h e (List.mem_map_of_mem hc))
            (h' e' (List.mem_map_of_mem hc')) he)
      | _ => cases heq
  | bind bindings =>
      cases op' with
      | bind bindings' => exact congrArg bind (hbindings h h' (bind.inj heq))
      | _ => cases heq
  | modify entity write targets =>
      cases op' with
      | modify entity' write' targets' =>
          obtain ⟨rfl, rfl, htargets⟩ := modify.inj heq
          exact congrArg (modify entity write) (hbindings h h' htargets)
      | _ => cases heq
  | call c =>
      cases op' with
      | call c' =>
          obtain ⟨home, procedure, arguments, yieldAll, yieldItems⟩ := c
          obtain ⟨home', procedure', arguments', yieldAll', yieldItems'⟩ := c'
          obtain ⟨rfl, rfl, harguments, rfl, rfl⟩ := ProcedureCall.mk.inj (call.inj heq)
          have hsame : arguments = arguments' :=
            eq_of_map_eq (fun e he e' he' => hexpr (h e he) (h' e' he')) harguments
          rw [hsame]
      | _ => cases heq
  | _ =>
      cases op' with
      | _ => first | exact heq | cases heq

end Op

namespace Plan

/-- In every node the names can be read off: those of the payload, and in a change of model those of
the schema. -/
def Readable (catalog : Catalog) (p : Plan) : Prop :=
  ∀ n : Plan, n.IsNodeOf p → n.op.Readable catalog ∧
    (n.op.isTransform = true → ∀ f ∈ n.schema, isTitle f.name = true)

theorem Readable.inputs {catalog : Catalog} {p : Plan} (h : p.Readable catalog) :
    ∀ input ∈ p.inputs, input.Readable catalog :=
  fun _ hinput n hn => h n (.input hn hinput)

/-- The inputs of a node as they stand in fingerprints. -/
def inputsText (inputs : List Plan) : String :=
  if inputs.isEmpty then "" else "[" ++ ";".intercalate (inputs.map fingerprint) ++ "]"

theorem toList_fingerprint (p : Plan) (s : List Char) : p.fingerprint.toList ++ s =
    p.op.kind.toList ++ ("[".toList ++ (p.model.text.toList ++ ("](".toList ++
      (p.op.payload.toList ++ (")".toList ++
        ((if p.op.isTransform then p.schema.text else "").toList ++
          ((inputsText p.inputs).toList ++ s))))))) := by
  obtain ⟨tag, op, inputs, schema, model⟩ := p
  rw [fingerprint, fingerprints_eq_map]
  simp only [headline, kind, String.toList_append, List.append_assoc, inputsText]

theorem bareAll_eq_map (ps : List Plan) : bareAll ps = ps.map bare := by
  induction ps with
  | nil => rfl
  | cons p ps ih => rw [bareAll, ih, List.map_cons]

theorem isPlain_kind (op : Op) : isPlain op.kind = true := by
  cases op <;> rw [Op.kind] <;> decide

/-- What can come after a fingerprint: the next input, or the bracket that closes the inputs. -/
def endsPlan (c : Char) : Bool := c == ';' || c == ']'

theorem follows_fingerprint (p : Plan) {c : Char} (hc : isMark c = true) (s : List Char) :
    Follows (· != c) (p.fingerprint.toList ++ s) := by
  rw [toList_fingerprint]
  exact (follows_plain (isPlain_kind p.op) fun _ => bne_of_not_isMark hc).append _

/-- Inputs are shown if each of them is. -/
theorem shows_inputs {P : Plan → Prop} {inputs : List Plan}
    (h : ∀ input ∈ inputs, P input ∧ Shows fingerprint bare P (Follows endsPlan) input) :
    Shows inputsText (List.map bare) (fun inputs => ∀ input ∈ inputs, P input) (Follows endsPlan)
      inputs := by
  have hitems : Shows (fun ps : List Plan => ";".intercalate (ps.map fingerprint)) (List.map bare)
      (fun ps => ∀ p ∈ ps, P p) (Follows (· == ']')) inputs := by
    refine shows_intercalate (fun s => rfl) (fun t ht => ?_) ?_ h
    · exact endsItems_behind (c := ';') rfl (ht.of_mark rfl) (ht.of_mark rfl)
    · rintro t p s ht - - rfl
      exact ht.not_both (follows_fingerprint p rfl s)
  refine shows_optional '[' [] (g := fun ps => "[" ++ ";".intercalate (ps.map fingerprint) ++ "]")
    ?_ ?_ ?_ (fun input hinput => (h input hinput).1) ?_
  · intro ps _
    cases ps with
    | nil => exact Or.inl ⟨rfl, rfl⟩
    | cons p ps => exact Or.inr rfl
  · intro ps
    simp
  · exact fun s hs => hs.mono fun c hc => by
      rcases Bool.or_eq_true_iff.mp hc with hc | hc <;> rw [eq_of_beq hc] <;> rfl
  · intro ps s t hps _ _ heq
    simp only [String.toList_append, List.append_assoc] at heq
    obtain ⟨hsame, heq⟩ := hitems.read (List.append_cancel_left heq) hps rfl rfl
    exact ⟨hsame, List.append_cancel_left heq⟩

/-! ## What follows from the inputs -/

theorem forall₂_alike_of_bare_eq {ps qs : List Plan} (h : ps.map bare = qs.map bare) :
    List.Forall₂ Alike ps qs := by
  rw [← List.forall₂_eq_eq_eq, List.forall₂_map_left_iff, List.forall₂_map_right_iff] at h
  refine h.imp ?_
  rintro ⟨_, _, _, _, _⟩ ⟨_, _, _, _, _⟩ hsame
  injection hsame with _ _ _ hschema hmodel
  exact ⟨hschema.symm, hmodel.symm⟩

/-- The fields that the expressions of a node can refer to. -/
def scope (p : Plan) : Schema := (p.inputs.head?.map schema).getD []

theorem WellBuilt.fits {p : Plan} (hp : p.WellBuilt) : ∀ e ∈ p.op.exprs, e.Fits p.scope := by
  intro e he index ty hpart
  obtain ⟨input, field, hinputs, hfield, hty⟩ :=
    (checked_of_rebuild hp.again).refs e he index ty hpart
  refine ⟨field, ?_, hty⟩
  rw [scope, (hinputs : p.inputs = [input])]
  exact hfield

theorem scope_eq_of_alike {p q : Plan} (h : List.Forall₂ Alike p.inputs q.inputs) :
    p.scope = q.scope := by
  obtain ⟨_, _, inputs, _, _⟩ := p
  obtain ⟨_, _, inputs', _, _⟩ := q
  cases h with
  | nil => rfl
  | cons hfirst _ => exact hfirst.1.symm

/-- Nodes that come out of their constructors are equal if their payloads and inputs are and, in a
change of model, their schemas. -/
theorem WellBuilt.bare_eq {p q : Plan} (hp : p.WellBuilt) (hq : q.WellBuilt) (hop : p.op = q.op)
    (hinputs : p.inputs.map bare = q.inputs.map bare)
    (hschema : p.op.isTransform = true → p.schema = q.schema) : p.bare = q.bare := by
  have hagain : rebuild p.op q.inputs p.schema = .ok ⟨none, p.op, q.inputs, p.schema, p.model⟩ := by
    rw [rebuild_alike (forall₂_alike_of_bare_eq hinputs), hp.again]
    rfl
  have hsame : rebuild p.op q.inputs p.schema = rebuild q.op q.inputs q.schema := by
    rw [← hop]
    cases htransform : p.op.isTransform with
    | true => rw [hschema htransform]
    | false => exact rebuild_schema _ _ htransform
  rw [hagain, hq.again] at hsame
  injection hsame with hsame
  injection hsame with _ _ _ hschema hmodel
  obtain ⟨tag, op, inputs, schema, model⟩ := p
  obtain ⟨tag', op', inputs', schema', model'⟩ := q
  rw [bare, bare, bareAll_eq_map, bareAll_eq_map]
  exact congr (congr (congr (congrArg (mk none) hop) hinputs) hschema) hmodel

/-- A schema that is written for changes of model only. -/
theorem read_schema {p q : Plan} (hsame : p.op.isTransform = q.op.isTransform)
    (hp : p.op.isTransform = true → ∀ f ∈ p.schema, isTitle f.name = true)
    (hq : q.op.isTransform = true → ∀ f ∈ q.schema, isTitle f.name = true) {s t : List Char}
    (heq : (if p.op.isTransform then p.schema.text else "").toList ++ s =
      (if q.op.isTransform then q.schema.text else "").toList ++ t) :
    (p.op.isTransform = true → p.schema = q.schema) ∧ s = t := by
  rw [← hsame] at hq heq
  cases htransform : p.op.isTransform with
  | false =>
      rw [htransform] at heq
      exact ⟨fun h => (Bool.false_ne_true h).elim, heq⟩
  | true =>
      rw [htransform] at heq
      obtain ⟨hschema, heq⟩ :=
        (Schema.shows_text (hp htransform)).read heq (hq htransform) trivial trivial
      exact ⟨fun _ => hschema, heq⟩

/-- **Fingerprints show plans**, tags apart: the operators by their names and payloads, the types in
the payloads by the inputs, and the schemas by both. -/
theorem shows_fingerprint {catalog : Catalog} {p : Plan} (hp : p.WellBuilt)
    (hread : p.Readable catalog) :
    Shows fingerprint bare (fun q => q.WellBuilt ∧ q.Readable catalog) (Follows endsPlan) p := by
  -- By induction on how the plan was built: the inputs are shown by their own fingerprints.
  induction hp with
  | @node tag op inputs schema model hwellBuilt hagain ih =>
      have hp : WellBuilt ⟨tag, op, inputs, schema, model⟩ := .node hwellBuilt hagain
      rintro q s t ⟨hq, hread'⟩ hs ht heq
      obtain ⟨hop, htitles⟩ := hread _ (.self _)
      obtain ⟨hop', htitles'⟩ := hread' _ (.self _)
      rw [toList_fingerprint, toList_fingerprint] at heq
      obtain ⟨hkind, heq⟩ := (shows_plain (isPlain_kind op)).read heq (isPlain_kind q.op) rfl rfl
      obtain ⟨-, heq⟩ := model.shows_text.read (List.append_cancel_left heq) trivial rfl rfl
      obtain ⟨hpayload, heq⟩ :=
        Op.shows_payload hop hop' hkind (List.append_cancel_left heq) rfl rfl
      have htransform : op.isTransform = q.op.isTransform := by
        rw [← op.isTransform_untyped, hpayload, Op.isTransform_untyped]
      obtain ⟨hschema, heq⟩ := read_schema htransform htitles htitles' (List.append_cancel_left heq)
      obtain ⟨hinputs, heq⟩ := (shows_inputs fun input hinput => ⟨⟨hwellBuilt input hinput,
        hread.inputs input hinput⟩, ih input hinput (hread.inputs input hinput)⟩).read heq
        (fun input hinput => ⟨hq.inputs input hinput, hread'.inputs input hinput⟩) hs ht
      have hscope : scope ⟨tag, op, inputs, schema, model⟩ = q.scope :=
        scope_eq_of_alike (forall₂_alike_of_bare_eq hinputs)
      have hsame : op = q.op := by
        refine Op.eq_of_untyped_eq (fun e he => ⟨(hop.exprs e he).typed, hp.fits e he⟩)
          (fun e he => ⟨(hop'.exprs e he).typed, ?_⟩) hpayload
        rw [hscope]
        exact hq.fits e he
      exact ⟨hp.bare_eq hq hsame hinputs hschema, heq⟩

/-- **Fingerprints tell readable plans apart**, tags apart. -/
theorem bare_eq_of_fingerprint_eq {catalog : Catalog} {p q : Plan} (hp : p.WellBuilt)
    (hq : q.WellBuilt) (hread : p.Readable catalog) (hread' : q.Readable catalog)
    (h : p.fingerprint = q.fingerprint) : p.bare = q.bare := by
  have hends : Follows endsPlan [';'] := rfl
  exact ((shows_fingerprint hp hread).read (by rw [h]) ⟨hq, hread'⟩ hends hends).1

end Plan

end QueryPlan
