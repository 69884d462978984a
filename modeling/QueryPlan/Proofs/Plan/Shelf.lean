import QueryPlan.Plan.Shelf
import QueryPlan.Proofs.Lists
import QueryPlan.Proofs.Plan.Writes

/-!
# What tags on a shelf stand for

Putting a plan on a shelf numbers those of its nodes that have no tag. A step may put anything on a
shelf whose tagged nodes the shelf knows (`Shelf.Takes`): what the constructors make over plans of
the shelf is of this kind, and so is a plan that comes from elsewhere, with a tag that is not in
use.

On a shelf filled in this way, every node has a tag and a tag stands for one node
(`Shelf.InUse.orderly`). So there it is the same to say that two plans are one object and that they
are equal.
-/

namespace QueryPlan

namespace Plan

/-- Every node has a tag. -/
def Identified (p : Plan) : Prop := ∀ n : Plan, n.IsNodeOf p → n.tag.isSome = true

/-! ## Numbering -/

mutual

theorem length_nodes : ∀ p : Plan, p.nodes.length = p.size
  | ⟨tag, op, inputs, schema, model⟩ => by
    rw [nodes, size, List.length_append, length_nodesAll inputs, List.length_singleton,
      Nat.add_comm]

theorem length_nodesAll : ∀ ps : List Plan, (nodesAll ps).length = sizes ps
  | [] => rfl
  | p :: ps => by rw [nodesAll, sizes, List.length_append, length_nodes p, length_nodesAll ps]

end

mutual

theorem size_identify (n : Nat) : ∀ p : Plan, (p.identify n).size = p.size
  | ⟨tag, op, inputs, schema, model⟩ => by
    rw [identify, size, size, sizes_identifyAll n inputs]

theorem sizes_identifyAll (n : Nat) : ∀ ps : List Plan, sizes (identifyAll n ps) = sizes ps
  | [] => rfl
  | p :: ps => by
    rw [identifyAll, sizes, sizes, size_identify n p, sizes_identifyAll (n + p.size) ps]

end

theorem Identified.inputs {p input : Plan} (h : p.Identified) (hinput : input ∈ p.inputs) :
    input.Identified := fun n hn => h n (.input hn hinput)

mutual

/-- A plan all of whose nodes have tags stays as it is. -/
theorem identify_of_identified (n : Nat) : ∀ p : Plan, p.Identified → p.identify n = p
  | ⟨tag, op, inputs, schema, model⟩, h => by
    obtain ⟨t, rfl⟩ := Option.isSome_iff_exists.mp (h _ (.self _))
    rw [identify, identifyAll_of_identified n inputs fun p hp => h.inputs hp, Option.some_or]

theorem identifyAll_of_identified (n : Nat) : ∀ ps : List Plan, (∀ p ∈ ps, p.Identified) →
    identifyAll n ps = ps
  | [], _ => rfl
  | p :: ps, h => by
    obtain ⟨hp, hps⟩ := List.forall_mem_cons.mp h
    rw [identifyAll, identify_of_identified n p hp, identifyAll_of_identified (n + p.size) ps hps]

end

theorem inputs_identify (n : Nat) (p : Plan) : (p.identify n).inputs = identifyAll n p.inputs := by
  cases p
  rw [identify]

/-- What a node is after it has been numbered. -/
structure NumberedAs (k : Nat) (before after : Plan) : Prop where
  tag : after.tag = before.tag.or (some k)
  kept : before.Identified → after = before

theorem numberedAs_identify (n : Nat) (p : Plan) :
    NumberedAs (n + sizes p.inputs) p (p.identify n) := by
  refine ⟨?_, identify_of_identified n p⟩
  cases p
  rw [identify]

mutual

/-- Numbering goes through the nodes in order. -/
theorem nodes_identify {m : Plan} (n : Nat) {i : Nat} : ∀ p : Plan,
    (p.identify n).nodes[i]? = some m → ∃ x, p.nodes[i]? = some x ∧ NumberedAs (n + i) x m
  | ⟨tag, op, inputs, schema, model⟩, h => by
    have htop := numberedAs_identify n ⟨tag, op, inputs, schema, model⟩
    rw [nodes_eq] at h ⊢
    rcases getElem?_append_cases h with hbelow | ⟨j, rfl, hj⟩
    · rw [identify] at hbelow
      obtain ⟨x, hx, hnumbered⟩ := nodesAll_identifyAll n inputs hbelow
      exact ⟨x, getElem?_append_of_some hx _, hnumbered⟩
    · obtain ⟨rfl, rfl⟩ : j = 0 ∧ m = identify n ⟨tag, op, inputs, schema, model⟩ := by
        cases j with
        | zero => exact ⟨rfl, (Option.some.inj hj).symm⟩
        | succ j => cases hj
      have hlength : (nodesAll (identify n ⟨tag, op, inputs, schema, model⟩).inputs).length =
          (nodesAll inputs).length := by
        rw [inputs_identify, length_nodesAll, length_nodesAll, sizes_identifyAll]
      rw [hlength, Nat.add_zero]
      refine ⟨_, List.getElem?_concat_length, ?_⟩
      rw [length_nodesAll]
      exact htop

theorem nodesAll_identifyAll {m : Plan} (n : Nat) {i : Nat} : ∀ ps : List Plan,
    (nodesAll (identifyAll n ps))[i]? = some m →
      ∃ x, (nodesAll ps)[i]? = some x ∧ NumberedAs (n + i) x m
  | [], h => by cases h
  | p :: ps, h => by
    rw [identifyAll, nodesAll] at h
    rw [nodesAll]
    rcases getElem?_append_cases h with hfirst | ⟨j, rfl, hj⟩
    · obtain ⟨x, hx, hnumbered⟩ := nodes_identify n p hfirst
      exact ⟨x, getElem?_append_of_some hx _, hnumbered⟩
    · obtain ⟨x, hx, hnumbered⟩ := nodesAll_identifyAll (n + p.size) ps hj
      have hlength : (p.identify n).nodes.length = p.nodes.length := by
        rw [length_nodes, length_nodes, size_identify]
      refine ⟨x, ?_, ?_⟩
      · rw [hlength, List.getElem?_append_right (Nat.le_add_right _ _), Nat.add_sub_cancel_left]
        exact hx
      · rw [hlength, length_nodes, ← Nat.add_assoc]
        exact hnumbered

end

end Plan

namespace Shelf

/-! ## Shelves in use -/

/-- A node of a plan on the shelf. -/
def Holds (s : Shelf) (n : Plan) : Prop := ∃ p, some p ∈ s.entries ∧ n.IsNodeOf p

/-- A plan that may be put on the shelf. What it reads has no tags but those of nodes on the shelf.
It has no tag itself, or it is on the shelf, or its tag is one that no node on the shelf has and
that the shelf does not give out. -/
structure Takes (s : Shelf) (p : Plan) : Prop where
  below : ∀ input ∈ p.inputs, ∀ n : Plan, n.IsNodeOf input → n.tag = none ∨ s.Holds n
  top : ∀ t, p.tag = some t →
    s.Holds p ∨ (t < s.nextTag ∧ ∀ n : Plan, s.Holds n → n.tag ≠ some t)

/-- Shelves that steps have filled. A step that fails, or makes no plan, leaves a gap. -/
inductive InUse : Shelf → Prop
  | empty (n : Nat) : InUse (.empty n)
  | plan {s : Shelf} {p : Plan} : InUse s → s.Takes p → InUse (s.put (some p))
  | gap {s : Shelf} : InUse s → InUse (s.put none)

/-- Every node has a tag that was given out, and a tag stands for one node. -/
structure Orderly (s : Shelf) : Prop where
  tagged : ∀ n : Plan, s.Holds n → ∃ t, n.tag = some t ∧ t < s.nextTag
  one : ∀ m n : Plan, s.Holds m → s.Holds n → m.tag = n.tag → m = n

variable {s : Shelf} {m n p : Plan}

theorem Holds.isNodeOf (h : s.Holds p) (hn : n.IsNodeOf p) : s.Holds n := by
  obtain ⟨q, hq, hp⟩ := h
  exact ⟨q, hq, hn.trans hp⟩

theorem Holds.input (h : s.Holds p) (hn : n ∈ p.inputs) : s.Holds n :=
  h.isNodeOf (.input (.self n) hn)

theorem Orderly.identified (hs : s.Orderly) (hp : s.Holds p) : p.Identified := by
  intro n hn
  obtain ⟨t, ht, -⟩ := hs.tagged n (hp.isNodeOf hn)
  rw [ht, Option.isSome_some]

theorem holds_put_iff :
    (s.put (some p)).Holds n ↔ s.Holds n ∨ n.IsNodeOf (p.identify s.nextTag) := by
  simp only [Holds, put, List.mem_append, List.mem_singleton, Option.some.injEq]
  constructor
  · rintro ⟨q, hq | rfl, hn⟩
    · exact .inl ⟨q, hq, hn⟩
    · exact .inr hn
  · rintro (⟨q, hq, hn⟩ | hn)
    · exact ⟨q, .inl hq, hn⟩
    · exact ⟨_, .inr rfl, hn⟩

theorem holds_put_none_iff : (s.put none).Holds n ↔ s.Holds n := by simp [Holds, put]

/-- What a node of a plan is that has been put on a shelf. -/
inductive PutAs (s : Shelf) (p n : Plan) : Prop
  | old : s.Holds n → PutAs s p n
  | numbered (i : Nat) : (p.identify s.nextTag).nodes[i]? = some n →
      n.tag = some (s.nextTag + i) → PutAs s p n
  | top (t : Nat) : n = p.identify s.nextTag → n.tag = some t → t < s.nextTag →
      (∀ m : Plan, s.Holds m → m.tag ≠ some t) → PutAs s p n

theorem Orderly.putAs (hs : s.Orderly) (hp : s.Takes p)
    (hn : n.IsNodeOf (p.identify s.nextTag)) : s.PutAs p n := by
  obtain ⟨i, hi⟩ := List.mem_iff_getElem?.mp hn.mem_nodes
  rw [Plan.nodes_eq] at hi
  rcases getElem?_append_cases hi with hbelow | ⟨j, rfl, hj⟩
  · -- A node below the top has been numbered, or it is from the shelf and has been left alone.
    obtain ⟨x, hx, hnumbered⟩ :=
      Plan.nodesAll_identifyAll s.nextTag p.inputs (p.inputs_identify s.nextTag ▸ hbelow)
    obtain ⟨input, hinput, hx⟩ := Plan.exists_isNodeOf_of_mem_nodesAll (List.mem_of_getElem? hx)
    rcases hp.below input hinput x hx with hnone | hheld
    · refine .numbered i ?_ ?_
      · rw [Plan.nodes_eq]
        exact getElem?_append_of_some hbelow _
      · rw [hnumbered.tag, hnone, Option.none_or]
    · rw [hnumbered.kept (hs.identified hheld)]
      exact .old hheld
  · obtain rfl : n = p.identify s.nextTag := by
      cases j with
      | zero => exact (Option.some.inj hj).symm
      | succ j => cases hj
    have hnumbered := Plan.numberedAs_identify s.nextTag p
    cases htag : p.tag with
    | none =>
        refine .numbered _ (Plan.nodes_eq _ ▸ List.getElem?_concat_length) ?_
        rw [hnumbered.tag, htag, Option.none_or, Plan.length_nodesAll, Plan.inputs_identify,
          Plan.sizes_identifyAll]
    | some t =>
        rcases hp.top t htag with hheld | ⟨hless, hother⟩
        · rw [hnumbered.kept (hs.identified hheld)]
          exact .old hheld
        · refine .top t rfl ?_ hless hother
          rw [hnumbered.tag, htag, Option.some_or]

theorem PutAs.tagged (h : s.PutAs p n) (hs : s.Orderly) :
    ∃ t, n.tag = some t ∧ t < (s.put (some p)).nextTag := by
  cases h with
  | old h =>
      obtain ⟨t, ht, hless⟩ := hs.tagged n h
      exact ⟨t, ht, Nat.lt_add_right _ hless⟩
  | numbered i hi ht =>
      obtain ⟨hless, -⟩ := List.getElem?_eq_some_iff.mp hi
      rw [Plan.length_nodes, Plan.size_identify] at hless
      exact ⟨_, ht, Nat.add_lt_add_left hless _⟩
  | top t _ ht hless _ => exact ⟨t, ht, Nat.lt_add_right _ hless⟩

/-- Old tags, new numbers and the tag that a plan brings with it are different from each other. -/
theorem PutAs.eq (hm : s.PutAs p m) (hn : s.PutAs p n) (hs : s.Orderly) (htag : m.tag = n.tag) :
    m = n := by
  have hold {m : Plan} {k : Nat} (hm : s.Holds m) : m.tag ≠ some (s.nextTag + k) := by
    obtain ⟨t, ht, hless⟩ := hs.tagged m hm
    rw [ht, Ne, Option.some.injEq]
    omega
  cases hm with
  | old hm =>
      cases hn with
      | old hn => exact hs.one m n hm hn htag
      | numbered i _ ht => exact absurd (htag.trans ht) (hold hm)
      | top t _ ht _ hother => exact absurd (htag.trans ht) (hother m hm)
  | numbered i hi ht =>
      cases hn with
      | old hn => exact absurd (htag.symm.trans ht) (hold hn)
      | numbered j hj ht' =>
          obtain rfl : i = j := by
            have heq := ht.symm.trans (htag.trans ht')
            rw [Option.some.injEq] at heq
            omega
          exact Option.some.inj (hi.symm.trans hj)
      | top t _ ht' hless _ =>
          have heq := ht.symm.trans (htag.trans ht')
          rw [Option.some.injEq] at heq
          omega
  | top t hm ht hless hother =>
      cases hn with
      | old hn => exact absurd (htag.symm.trans ht) (hother n hn)
      | numbered i _ ht' =>
          have heq := ht.symm.trans (htag.trans ht')
          rw [Option.some.injEq] at heq
          omega
      | top _ hn _ _ _ => rw [hm, hn]

/-- **One step** keeps a shelf in order. -/
theorem Orderly.put (hs : s.Orderly) (hp : s.Takes p) : (s.put (some p)).Orderly := by
  have hnodes {n : Plan} (hn : (s.put (some p)).Holds n) : s.PutAs p n :=
    (holds_put_iff.mp hn).elim .old fun hnew => hs.putAs hp hnew
  exact ⟨fun n hn => (hnodes hn).tagged hs, fun m n hm hn => (hnodes hm).eq (hnodes hn) hs⟩

/-- **On a shelf in use every node has a tag, and a tag stands for one node.** -/
theorem InUse.orderly (h : s.InUse) : s.Orderly := by
  induction h with
  | empty n =>
      have hnone (m : Plan) : ¬(Shelf.empty n).Holds m := by
        rintro ⟨_, hmem, -⟩
        cases hmem
      exact ⟨fun m hm => absurd hm (hnone m), fun m _ hm => absurd hm (hnone m)⟩
  | plan _ hp ih => exact ih.put hp
  | gap _ ih =>
      exact ⟨fun n hn => ih.tagged n (holds_put_none_iff.mp hn), fun m n hm hn =>
        ih.one m n (holds_put_none_iff.mp hm) (holds_put_none_iff.mp hn)⟩

/-! ## What a shelf takes -/

/-- A new node over plans of the shelf. -/
theorem takes_of_untagged (htag : p.tag = none) (hinputs : ∀ input ∈ p.inputs, s.Holds input) :
    s.Takes p := by
  refine ⟨fun input hinput n hn => .inr ((hinputs input hinput).isNodeOf hn), fun t ht => ?_⟩
  rw [htag] at ht
  cases ht

theorem Holds.takes (h : s.Holds p) : s.Takes p :=
  ⟨fun _ hinput _ hn => .inr ((h.input hinput).isNodeOf hn), fun _ _ => .inl h⟩

/-- A plan without tags, under a tag of its own. -/
theorem takes_tagWith (h : ∀ n : Plan, n.IsNodeOf p → n.tag = none) {t : Nat} (ht : t < s.nextTag)
    (hunused : ∀ n : Plan, s.Holds n → n.tag ≠ some t) : s.Takes (p.tagWith t) := by
  refine ⟨fun input hinput n hn => .inl (h n (.input hn hinput)), fun u hu => .inr ?_⟩
  obtain rfl : t = u := by simpa [Plan.tagWith, h p (.self p)] using hu
  exact ⟨ht, hunused⟩

end Shelf

end QueryPlan
