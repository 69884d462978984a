import Mathlib.Data.List.Forall2
import QueryPlan.Proofs.Compiler.Delivery
import QueryPlan.Proofs.Plan.Shelf

/-!
# Plans over other inputs

A constructor sees of the plans it reads only their schemas and their models: over plans that are
alike it fails with the same error or makes the same node (`rebuild_alike`). So a reachable plan can
be put over any plans that are like those it reads.

Which plans are the same object is known of plans with tags only. A plan put over the very objects
it reads is returned as it is; over anything else a new node is made, even if that looks the same.
On a shelf all nodes have tags. A plan that is put there keeps its looks, and can be put over others
as before (`Reachable.identify`).
-/

namespace QueryPlan

namespace Plan

/-- Plans with one schema and one model. -/
def Alike (p q : Plan) : Prop := q.schema = p.schema ∧ q.model = p.model

/-- A new node like the given one, but over other inputs. Nothing is checked. -/
def onto (inputs : List Plan) (p : Plan) : Plan := ⟨none, p.op, inputs, p.schema, p.model⟩

/-- Lists that hold the same objects, side by side. -/
def SameObjects (ps qs : List Plan) : Prop := List.Forall₂ (fun p q => p.isSame q = true) ps qs

/-! ## What constructors see of their inputs -/

section

variable {inputs inputs' : List Plan} (h : List.Forall₂ Alike inputs inputs')

include h

/-- Which strange model is met first shows in the models. -/
theorem find?_model_alike (m : Model) :
    (inputs'.find? (·.model ≠ m)).map Plan.model = (inputs.find? (·.model ≠ m)).map Plan.model := by
  induction h with
  | nil => rfl
  | @cons p q _ _ hfirst _ ih =>
      by_cases hm : p.model = m
      · simpa [hfirst.2, hm] using ih
      · simp [hfirst.2, hm]

theorem build_alike (op : Op) (schema : Schema) (m : Model) :
    build op inputs' schema m = onto inputs' <$> build op inputs schema m := by
  have hstrange : (strangeInput? op inputs' m).map Plan.model =
      (strangeInput? op inputs m).map Plan.model := by
    unfold strangeInput?
    split
    · rfl
    · exact find?_model_alike h m
  unfold build
  revert hstrange
  rcases strangeInput? op inputs m with _ | child <;>
    rcases strangeInput? op inputs' m with _ | child'
  · exact fun _ => rfl
  · nofun
  · nofun
  · intro hmodel
    exact congrArg (Except.error ∘ Error.modelMismatch m) (Option.some.inj hmodel)

theorem transform_alike (schema : Schema) (c : Conversion) :
    transform inputs' schema c = onto inputs' <$> transform inputs schema c := by
  have hlength := h.length_eq
  have hempty : inputs'.isEmpty = inputs.isEmpty := by cases h <;> rfl
  have hmodels := find?_model_alike h c.source
  unfold transform
  rw [hempty, ← hlength, map_bind]
  refine bind_congr fun _ => ?_
  rw [map_bind]
  refine bind_congr fun _ => ?_
  revert hmodels
  generalize inputs.find? (·.model ≠ c.source) = old
  generalize inputs'.find? (·.model ≠ c.source) = new
  rcases old with _ | child <;> rcases new with _ | child'
  · exact fun _ => build_alike h _ _ _
  · nofun
  · nofun
  · intro hmodel
    exact congrArg (Except.error ∘ Error.modelMismatch c.source) (Option.some.inj hmodel)

end

section

variable {input input' : Plan} (h : Alike input input')

include h

/-- A node over one input. -/
theorem build_one_alike (op : Op) (schema : Schema) (m : Model) :
    build op [input'] schema m = onto [input'] <$> build op [input] schema m :=
  build_alike (.cons h .nil) op schema m

theorem filter_alike (predicate : Expr) :
    filter input' predicate = onto [input'] <$> filter input predicate := by
  simp only [filter, h.1, h.2, build_one_alike h, map_bind]

theorem projectColumns_alike (columns : List Column) :
    projectColumns input' columns = onto [input'] <$> projectColumns input columns := by
  simp only [projectColumns, h.1, h.2, build_one_alike h, map_bind]

theorem matchBindings_alike (bindings : List Binding) :
    matchBindings input' bindings = onto [input'] <$> matchBindings input bindings := by
  unfold matchBindings
  cases bindings.find? (·.expr.operator? ≠ some .patternMatch) with
  | some bad => rfl
  | none => simp only [h.1, build_one_alike h, map_bind]

theorem patternMatch_alike (calls : List Expr) (names : List String) :
    patternMatch input' calls names = onto [input'] <$> patternMatch input calls names := by
  simp only [patternMatch, h.2, matchBindings_alike h, map_bind]

theorem aggregate_alike (keys : List Nat) (calls : List Aggregate) :
    aggregate input' keys calls = onto [input'] <$> aggregate input keys calls := by
  unfold aggregate
  rw [h.1, h.2]
  dsimp only
  cases (keys ++ calls.flatMap Aggregate.args).find? (input.schema.length ≤ ·) with
  | some index => rfl
  | none => exact build_one_alike h _ _ _

theorem modify_alike (entity : Entity) (write : Write) (names : List String) (exprs : List Expr) :
    modify entity input' write names exprs =
      onto [input'] <$> modify entity input write names exprs := by
  have htargets (targets : List Binding) : modifyTargets entity input' write targets =
      onto [input'] <$> modifyTargets entity input write targets := by
    simp only [modifyTargets, h.1, h.2, build_one_alike h, map_bind]
  unfold modify
  split
  all_goals simp only [htargets, map_bind]

theorem unwind_alike (index : Nat) (asName : String) :
    unwind input' index asName = onto [input'] <$> unwind input index asName := by
  unfold unwind
  rw [h.1, h.2]
  cases input.schema[index]? with
  | none => rfl
  | some field =>
      dsimp only
      cases field.ty with
      | list element => exact build_one_alike h _ _ _
      | any => exact build_one_alike h _ _ _
      | _ => rfl

theorem sort_alike (keys : List SortKey) (offset limit : Option Nat) :
    sort input' keys offset limit = onto [input'] <$> sort input keys offset limit := by
  unfold sort
  rw [h.1, h.2]
  dsimp only
  cases keys.find? (input.schema.length ≤ ·.index) with
  | some key => rfl
  | none => exact build_one_alike h _ _ _

end

/-- A node made again has the inputs it is made over. -/
theorem onto_rebuild (op : Op) (inputs : List Plan) (schema : Schema) :
    onto inputs <$> rebuild op inputs schema = rebuild op inputs schema := by
  cases hmade : rebuild op inputs schema with
  | error e => rfl
  | ok p =>
      obtain ⟨s, m, rfl, -⟩ := (yields_rebuild op inputs schema).result hmade
      rfl

/-- **A constructor sees of its inputs only their schemas and models.** Over inputs that are alike
it gives the same error, or the same node but for the inputs. -/
theorem rebuild_alike {inputs inputs' : List Plan} (h : List.Forall₂ Alike inputs inputs') (op : Op)
    (schema : Schema) :
    rebuild op inputs' schema = onto inputs' <$> rebuild op inputs schema := by
  rcases h with _ | ⟨hone, _ | ⟨htwo, hrest⟩⟩
  · exact (onto_rebuild op [] schema).symm
  · cases op with
    | scan | values | call => rfl
    | filter predicate => exact filter_alike hone predicate
    | project columns => exact projectColumns_alike hone columns
    | bind bindings => exact patternMatch_alike hone _ _
    | aggregate keys calls => exact aggregate_alike hone keys calls
    | modify entity write targets => exact modify_alike hone entity write _ _
    | unwind index asName => exact unwind_alike hone index asName
    | transform c => exact transform_alike (.cons hone .nil) schema c
    | sort keys offset limit => exact sort_alike hone keys offset limit
  · -- All but a change of model refuse so many inputs, and tell how many they are.
    cases op with
    | transform c => exact transform_alike (.cons hone (.cons htwo hrest)) schema c
    | _ => simp [rebuild, hrest.length_eq]

/-! ## Plans that look the same, and objects that are the same -/

theorem fingerprints_eq_map (ps : List Plan) : fingerprints ps = ps.map fingerprint := by
  induction ps with
  | nil => rw [fingerprints, List.map_nil]
  | cons p ps ih => rw [fingerprints, List.map_cons, ih]

/-- Inputs show in a fingerprint by their own fingerprints only. -/
theorem fingerprint_onto {p : Plan} {inputs : List Plan}
    (h : List.Forall₂ (fun old new => new.fingerprint = old.fingerprint) p.inputs inputs) :
    (p.onto inputs).fingerprint = p.fingerprint := by
  obtain ⟨tag, op, old, schema, model⟩ := p
  have hempty : inputs.isEmpty = old.isEmpty := by cases h <;> rfl
  have hinputs : fingerprints inputs = fingerprints old := by
    rw [fingerprints_eq_map, fingerprints_eq_map, ← List.forall₂_eq_eq_eq]
    exact List.forall₂_map_left_iff.mpr (List.forall₂_map_right_iff.mpr h.flip)
  simp only [onto, fingerprint, headline, kind, hempty, hinputs]

theorem areSame_iff {ps qs : List Plan} : areSame ps qs = true ↔ SameObjects ps qs := by
  unfold SameObjects
  induction ps generalizing qs with
  | nil => cases qs <;> simp [areSame]
  | cons p ps ih => cases qs <;> simp [areSame, ih]

/-- Where no object stands for two plans, lists of the same objects are equal. -/
theorem SameObjects.eq {ps qs : List Plan} (h : SameObjects ps qs)
    (hone : ∀ p ∈ ps, ∀ q ∈ qs, p.isSame q = true → p = q) : ps = qs := by
  induction h with
  | nil => rfl
  | cons hfirst _ ih =>
      rw [hone _ List.mem_cons_self _ List.mem_cons_self hfirst]
      exact congrArg _ (ih fun p hp q hq =>
        hone p (List.mem_cons_of_mem _ hp) q (List.mem_cons_of_mem _ hq))

theorem isSame_self (p : Plan) : p.isSame p = p.tag.isSome := by simp [isSame]

theorem not_isSame_of_untagged {p q : Plan} (h : p.tag = none) : p.isSame q = false := by
  simp [isSame, h]

/-- What a well-built plan is over inputs that are like its own. -/
theorem WellBuilt.withInputs_alike {p : Plan} {inputs : List Plan} (hp : WellBuilt p)
    (h : List.Forall₂ Alike p.inputs inputs) :
    (SameObjects inputs p.inputs ∧ p.withInputs inputs = .ok p) ∨
      (¬SameObjects inputs p.inputs ∧ p.withInputs inputs = .ok (p.onto inputs)) := by
  unfold withInputs
  by_cases hsame : areSame inputs p.inputs = true
  · exact .inl ⟨areSame_iff.mp hsame, if_pos hsame⟩
  · refine .inr ⟨mt areSame_iff.mpr hsame, ?_⟩
    rw [if_neg hsame, rebuild_alike h, hp.again]
    rfl

/-! ## Plans on a shelf -/

theorem alike_identify (n : Nat) (p : Plan) : Alike p (p.identify n) := by
  cases p
  rw [identify]
  exact ⟨rfl, rfl⟩

theorem alike_identifyAll (n : Nat) (ps : List Plan) :
    List.Forall₂ Alike ps (identifyAll n ps) := by
  induction ps generalizing n with
  | nil => exact .nil
  | cons p ps ih =>
      rw [identifyAll]
      exact .cons (alike_identify n p) (ih _)

mutual

theorem Reachable.identify (n : Nat) : ∀ {p : Plan}, p.Reachable → (p.identify n).Reachable
  | ⟨tag, op, inputs, schema, model⟩, h => by
    have hagain : rebuild op (identifyAll n inputs) schema =
        .ok ⟨none, op, identifyAll n inputs, schema, model⟩ := by
      rw [rebuild_alike (alike_identifyAll n inputs), h.wellBuilt.again]
      rfl
    have hnode := reachable_of_rebuild (reachable_identifyAll n h.inputs) hagain
    rw [Plan.identify]
    cases tag with
    | none => exact .tagged _ hnode
    | some t => exact .tagged t hnode

theorem reachable_identifyAll (n : Nat) : ∀ {ps : List Plan}, (∀ p ∈ ps, p.Reachable) →
    ∀ p ∈ identifyAll n ps, p.Reachable
  | [], _ => by
    rw [identifyAll]
    exact List.forall_mem_nil _
  | p :: ps, h => by
    obtain ⟨hp, hps⟩ := List.forall_mem_cons.mp h
    rw [identifyAll]
    exact List.forall_mem_cons.mpr ⟨hp.identify n, reachable_identifyAll _ hps⟩

end

mutual

theorem fingerprint_identify (n : Nat) : ∀ p : Plan, (p.identify n).fingerprint = p.fingerprint
  | ⟨tag, op, inputs, schema, model⟩ => by
    have hinputs := forall₂_fingerprint_identifyAll n inputs
    rw [identify, fingerprint_untag, fingerprint_untag tag]
    exact fingerprint_onto (p := ⟨none, op, inputs, schema, model⟩) hinputs

theorem forall₂_fingerprint_identifyAll (n : Nat) : ∀ ps : List Plan,
    List.Forall₂ (fun old new => new.fingerprint = old.fingerprint) ps (identifyAll n ps)
  | [] => by
    rw [identifyAll]
    exact .nil
  | p :: ps => by
    rw [identifyAll]
    exact .cons (fingerprint_identify n p) (forall₂_fingerprint_identifyAll _ ps)

end

end Plan

namespace Shelf.Orderly

variable {s : Shelf} (hs : s.Orderly)

include hs

/-- On an orderly shelf, the same object is an equal plan. -/
theorem isSame_iff {p q : Plan} (hp : s.Holds p) (hq : s.Holds q) : p.isSame q = true ↔ p = q := by
  obtain ⟨t, ht, -⟩ := hs.tagged p hp
  constructor
  · intro h
    refine hs.one p q hp hq ?_
    simpa [Plan.isSame, ht] using h
  · rintro rfl
    rw [Plan.isSame_self, ht, Option.isSome_some]

theorem sameObjects_iff {ps qs : List Plan} (hps : ∀ p ∈ ps, s.Holds p)
    (hqs : ∀ q ∈ qs, s.Holds q) : Plan.SameObjects ps qs ↔ ps = qs := by
  constructor
  · intro h
    exact h.eq fun p hp q hq => (hs.isSame_iff (hps p hp) (hqs q hq)).mp
  · rintro rfl
    exact List.forall₂_same.mpr fun p hp => (hs.isSame_iff (hps p hp) (hps p hp)).mpr rfl

end Shelf.Orderly

namespace Plan

/-- **A reachable plan can be put over any inputs that are like its own.** It keeps its payload, its
schema and its model, and reads the inputs it is given, provided that no tag stands for two of
these plans. If the inputs look like its own, it looks as it did.

If the inputs it has are tagged, it is the plan itself exactly if all its inputs are the same
objects as before. On a shelf in use all this holds without provisos: every node there has a tag,
and a tag stands for one node. -/
theorem reparented_over_alike {p : Plan} {inputs : List Plan} (hp : p.Reachable)
    (halike : List.Forall₂ Alike p.inputs inputs) :
    ∃ q, p.withInputs inputs = .ok q ∧ q.op = p.op ∧ q.schema = p.schema ∧ q.model = p.model ∧
      ((∀ new ∈ inputs, ∀ old ∈ p.inputs, new.isSame old = true → new = old) →
        q.inputs = inputs) ∧
      (List.Forall₂ (fun old new => new.fingerprint = old.fingerprint) p.inputs inputs →
        q.fingerprint = p.fingerprint) ∧
      ((∀ old ∈ p.inputs, old.tag.isSome = true) →
        (SameObjects inputs p.inputs → q = p) ∧
        (¬SameObjects inputs p.inputs → q.inputs = inputs ∧ q.tag = none) ∧
        (p.tag.isSome = true → (q.isSame p = true ↔ SameObjects inputs p.inputs))) ∧
      ∀ s : Shelf, s.InUse → s.Holds p → (∀ new ∈ inputs, s.Holds new) →
        q.inputs = inputs ∧ s.Takes q ∧
        (q.isSame p = true ↔ SameObjects inputs p.inputs) ∧
        (SameObjects inputs p.inputs ↔ inputs = p.inputs) := by
  have hheld {s : Shelf} (hs : s.InUse) (hp : s.Holds p) (hinputs : ∀ new ∈ inputs, s.Holds new) :
      SameObjects inputs p.inputs ↔ inputs = p.inputs :=
    hs.orderly.sameObjects_iff hinputs fun old hold => hp.input hold
  obtain ⟨hsame, hq⟩ | ⟨hother, hq⟩ := hp.wellBuilt.withInputs_alike halike
  · refine ⟨p, hq, rfl, rfl, rfl, fun hone => (hsame.eq hone).symm, fun _ => rfl, fun _ => ?_,
      fun s hs hp hinputs => ?_⟩
    · exact ⟨fun _ => rfl, fun hother => absurd hsame hother, fun htag =>
        iff_of_true ((isSame_self p).trans htag) hsame⟩
    · exact ⟨((hheld hs hp hinputs).mp hsame).symm, hp.takes,
        iff_of_true ((hs.orderly.isSame_iff hp hp).mpr rfl) hsame, hheld hs hp hinputs⟩
  · have hnew : (p.onto inputs).isSame p = true ↔ SameObjects inputs p.inputs := by
      refine iff_of_false ?_ hother
      rw [not_isSame_of_untagged rfl]
      exact Bool.false_ne_true
    refine ⟨_, hq, rfl, rfl, rfl, fun _ => rfl, fingerprint_onto, fun _ => ?_,
      fun s hs hp hinputs => ?_⟩
    · exact ⟨fun hsame => absurd hsame hother, fun _ => ⟨rfl, rfl⟩, fun _ => hnew⟩
    · exact ⟨rfl, Shelf.takes_of_untagged rfl hinputs, hnew, hheld hs hp hinputs⟩

/-- `MATCH (n) RETURN n` -/
def allNodes : Query :=
  .single ⟨[.matching ⟨false, [.node ⟨some "n", [], [], none⟩], none, none⟩,
    .returning ⟨⟨false, false, [⟨.var "n", none, none⟩], [], none, none⟩, none⟩], none⟩

/-- A shelf with the plan that a new compiler answers with, if `root` is what a query is lowered to,
and behind it the same plan made once more. -/
def twoPlans (root : Plan) : Shelf := ((Shelf.empty 1).put (some (root.tagWith 0))).put (some root)

theorem inUse_twoPlans {root : Plan} (h : ∀ n : Plan, n.IsNodeOf root → n.tag = none) :
    (twoPlans root).InUse := by
  refine .plan (.plan (.empty 1) (Shelf.takes_tagWith h Nat.zero_lt_one ?_)) ?_
  · rintro n ⟨_, hmem, -⟩
    cases hmem
  · refine ⟨fun input hinput n hn => .inl (h n (.input hn hinput)), fun t ht => ?_⟩
    rw [h root (.self root)] at ht
    cases ht

/-- Over the plans that it reads, the compiled plan is returned itself. Over those of the other plan
it is a new node that looks the same. -/
theorem allNodes_reparented :
    ∃ root kind first second,
      ((Compiler.new .withDefaultGraph .default).compile allNodes).1 =
        .ok ⟨root.tagWith 0, kind⟩ ∧
      (twoPlans root).InUse ∧ (twoPlans root).plan? 0 = some first ∧
      (twoPlans root).plan? 1 = some second ∧ first.Reachable ∧
      List.Forall₂ Alike first.inputs first.inputs ∧
      List.Forall₂ Alike first.inputs second.inputs ∧
      (∃ q, first.withInputs first.inputs = .ok q ∧ q.isSame first = true ∧ q = first) ∧
      ∃ q, first.withInputs second.inputs = .ok q ∧ q.isSame first = false ∧
        q.inputs = second.inputs ∧ q.fingerprint = first.fingerprint := by
  have hlowered : (allNodes.toPlan .withDefaultGraph ⟨0⟩ true).toOption.map (fun r =>
      (r.1.nodes.all fun n => n.tag.isNone) &&
        !areSame (identifyAll (1 + (r.1.tagWith 0).size) r.1.inputs) (identifyAll 1 r.1.inputs)) =
      some true := by decide +kernel
  obtain ⟨⟨root, kind⟩, hplan, hfacts⟩ := toOption_map_eq_some.mp hlowered
  rw [Bool.and_eq_true, List.all_eq_true, Bool.not_eq_true'] at hfacts
  have hcompiled :
      ((Compiler.new .withDefaultGraph (Settings.default.withTargetModel .graph)).compile
        allNodes).1 = .ok ⟨root.tagWith 0, kind⟩ := Compiler.compile_in_graph hplan
  have hshelf : (twoPlans root).InUse := inUse_twoPlans fun n hn =>
    Option.isNone_iff_eq_none.mp (hfacts.1 n hn.mem_nodes)
  obtain ⟨first, second, hfirst, hsecond, hheld, hother, hinputs, hinputs', rfl⟩ :
      ∃ first second, (twoPlans root).plan? 0 = some first ∧
        (twoPlans root).plan? 1 = some second ∧ (twoPlans root).Holds first ∧
        (twoPlans root).Holds second ∧ first.inputs = identifyAll 1 root.inputs ∧
        second.inputs = identifyAll (1 + (root.tagWith 0).size) root.inputs ∧
        first = (root.tagWith 0).identify 1 :=
    ⟨_, _, rfl, rfl, ⟨_, List.mem_cons_self, .self _⟩,
      ⟨_, List.mem_cons_of_mem _ List.mem_cons_self, .self _⟩, inputs_identify _ _,
      inputs_identify _ _, rfl⟩
  have hreach := ((Query.reachable_toPlan hplan).tagged 0).identify 1
  have hself : List.Forall₂ Alike ((root.tagWith 0).identify 1).inputs
      ((root.tagWith 0).identify 1).inputs := List.forall₂_same.mpr fun _ _ => ⟨rfl, rfl⟩
  have halike : List.Forall₂ Alike ((root.tagWith 0).identify 1).inputs second.inputs := by
    rw [hinputs, hinputs']
    exact forall₂_trans (alike_identifyAll 1 root.inputs).flip (alike_identifyAll _ root.inputs)
      fun _ _ _ hold hnew => ⟨hnew.1.trans hold.1.symm, hnew.2.trans hold.2.symm⟩
  refine ⟨root, kind, _, second, hcompiled, hshelf, hfirst, hsecond, hreach, hself, halike, ?_, ?_⟩
  · obtain ⟨q, hq, -, -, -, -, -, htagged, hkept⟩ := reparented_over_alike hreach hself
    obtain ⟨-, -, hiff, hsame⟩ := hkept _ hshelf hheld fun _ hnew => hheld.input hnew
    have hsome := fun old hold => hshelf.orderly.identified (hheld.input hold) old (.self old)
    exact ⟨q, hq, hiff.mpr (hsame.mpr rfl), (htagged hsome).1 (hsame.mpr rfl)⟩
  · obtain ⟨q, hq, -, -, -, -, hlook, -, hkept⟩ := reparented_over_alike hreach halike
    obtain ⟨hnew, -, hiff, -⟩ := hkept _ hshelf hheld fun _ hnew => hother.input hnew
    refine ⟨q, hq, Bool.eq_false_iff.mpr fun h => ?_, hnew, hlook ?_⟩
    · have hsame := areSame_iff.mpr (hiff.mp h)
      rw [hinputs, hinputs', hfacts.2] at hsame
      cases hsame
    · rw [hinputs, hinputs']
      exact forall₂_trans (forall₂_fingerprint_identifyAll 1 root.inputs).flip
        (forall₂_fingerprint_identifyAll _ root.inputs) fun _ _ _ hold hnew => hnew.trans hold.symm

end Plan

end QueryPlan
