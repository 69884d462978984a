import Mathlib.Data.List.Nodup
import Mathlib.Data.List.Perm.Subperm
import QueryPlan.Proofs.Lowering.Pattern

/-!
# What patterns create

A node pattern stands for the node of its variable, or, without a variable, for a node of its own
(`Referent`). `CreatesAsWritten` says that nodes and edges are created as patterns are written: a
node for each pattern without a variable and for each variable that is new, and an edge for each
relationship, between the nodes that its own ends stand for.

The lowering tells nodes apart by keys, and a key made up for a node without a variable can be the
name of a variable. Then two nodes become one. The nodes are created as written exactly if this does
not happen (`createsAsWritten_iff`).
-/

namespace QueryPlan

/-- What a node pattern stands for: the node of a variable, or a node of its own. The patterns
without a variable are told apart by their number. -/
inductive Referent
  | named (name : String)
  | unnamed (number : Nat)
deriving DecidableEq

/-- The key by which the lowering tells a node from others, if the counter starts at `n`. -/
def Referent.key (n : Nat) : Referent → String
  | named name => name
  | unnamed number => Draft.anonymousKey (n + number)

namespace NodePattern

/-- What a pattern stands for, if `count` patterns without a variable come before it. -/
def referent (count : Nat) (p : NodePattern) : Referent :=
  match p.var with
  | some name => .named name
  | none => .unnamed count

/-- What each of several patterns stands for. -/
def referents (count : Nat) : List NodePattern → List (Referent × NodePattern)
  | [] => []
  | p :: ps => (p.referent count, p) :: referents (count + anonymous [p]) ps

end NodePattern

/-- The patterns to create a node for: those without a variable, and the first one of each variable
that is not taken. -/
def Referent.due (taken : List String) :
    List (Referent × NodePattern) → List (Referent × NodePattern)
  | [] => []
  | (.unnamed number, p) :: rest => (.unnamed number, p) :: Referent.due taken rest
  | (.named name, p) :: rest =>
    if name ∈ taken then Referent.due taken rest
    else (.named name, p) :: Referent.due (name :: taken) rest

/-- A relationship, and what the nodes at its ends stand for. -/
structure Relationship where
  pattern : EdgePattern
  left : Referent
  right : Referent

/-- The relationships of a pattern, each between one node and the next. -/
def Pattern.relationships (count : Nat) (p : Pattern) : List Relationship :=
  let nodes := (NodePattern.referents count p.nodes).map Prod.fst
  p.edges.zipWith (fun e ends => ⟨e, ends.1, ends.2⟩) (nodes.zip nodes.tail)

/-- The relationships of several patterns. -/
def Relationship.ofPatterns (count : Nat) : List Pattern → List Relationship
  | [] => []
  | p :: ps => p.relationships count ++
      Relationship.ofPatterns (count + NodePattern.anonymous p.nodes) ps

/-- The edge has what the relationship says and points from its source to its target, where `name`
gives the names of nodes. -/
structure Relationship.Describes (name : Referent → String) (r : Relationship) (edge : Edge) :
    Prop where
  types : edge.labels = r.pattern.types
  properties : literalProperties r.pattern.properties = .ok edge.properties
  var : edge.var = r.pattern.var
  singleHop : edge.isSingleHop = true
  direction : edge.direction = .outgoing
  ends :
    (r.pattern.direction = .outgoing ∧ edge.source = name r.left ∧ edge.target = name r.right) ∨
    (r.pattern.direction = .incoming ∧ edge.source = name r.right ∧ edge.target = name r.left)

/-- What the node patterns of a clause and the fields of its input stand for. -/
def Referent.InSight (scope : Schema) (ps : List Pattern) (r : Referent) : Prop :=
  r ∈ (NodePattern.referents 0 (ps.flatMap Pattern.nodes)).map Prod.fst ∨
    ∃ name ∈ scope.names, r = .named name

/-- **Nodes and edges are created as the patterns are written.** Under some naming, by which each
variable is its own name and no two nodes in sight have one name, there is a node for each pattern
that one is due for and an edge for each relationship, in the order in which they are written. -/
def CreatesAsWritten (scope : Schema) (ps : List Pattern) (nodes : List Node)
    (edges : List Edge) : Prop :=
  ∃ name : Referent → String,
    (∀ v, name (.named v) = v) ∧
    (∀ r s, r.InSight scope ps → s.InSight scope ps → name r = name s → r = s) ∧
    List.Forall₂ (fun due node => due.2.Describes node ∧ node.endpoint? = some (name due.1))
      (Referent.due scope.names (NodePattern.referents 0 (ps.flatMap Pattern.nodes))) nodes ∧
    List.Forall₂ (Relationship.Describes name) (Relationship.ofPatterns 0 ps) edges

/-- The keys to be made up are neither fields of the input nor variables of the patterns. -/
def KeysFresh (scope : Schema) (n : Nat) (ps : List Pattern) : Prop :=
  ∀ number, number < Pattern.anonymous ps →
    Draft.anonymousKey (n + number) ∉ scope.names ∧
      ∀ p ∈ ps.flatMap Pattern.nodes, p.var ≠ some (Draft.anonymousKey (n + number))

instance (scope : Schema) (n : Nat) (ps : List Pattern) : Decidable (KeysFresh scope n ps) :=
  inferInstanceAs (Decidable (∀ number, number < Pattern.anonymous ps → _ ∧ ∀ p ∈ _, _))

/-! ## Keys and referents -/

/-- Keys that are made up differ from one another. -/
theorem Draft.anonymousKey_injective : Function.Injective Draft.anonymousKey := by
  intro i j h
  have hdigits : Nat.toDigits 10 i = Nat.toDigits 10 j := by
    have hchars := congrArg String.toList h
    simpa [Draft.anonymousKey, Nat.toString_eq_ofList_toDigits] using hchars
  calc
    i = Nat.ofDigitChars 10 (Nat.toDigits 10 i) 0 := Nat.ofDigitChars_ten_toDigits.symm
    _ = Nat.ofDigitChars 10 (Nat.toDigits 10 j) 0 := by rw [hdigits]
    _ = j := Nat.ofDigitChars_ten_toDigits

namespace NodePattern

theorem anonymous_singleton_of_some {p : NodePattern} {name : String} (h : p.var = some name) :
    anonymous [p] = 0 := by
  simp [anonymous, h]

theorem anonymous_singleton_of_none {p : NodePattern} (h : p.var = none) : anonymous [p] = 1 := by
  simp [anonymous, h]

theorem referents_append (count : Nat) (ps qs : List NodePattern) :
    referents count (ps ++ qs) = referents count ps ++ referents (count + anonymous ps) qs := by
  induction ps generalizing count with
  | nil => rfl
  | cons p ps ih =>
      rw [List.cons_append, referents, referents, ih, List.cons_append, anonymous_cons p ps,
        Nat.add_assoc]

theorem named_mem_referents {count : Nat} {ps : List NodePattern} {name : String} :
    .named name ∈ (referents count ps).map Prod.fst ↔ ∃ p ∈ ps, p.var = some name := by
  induction ps generalizing count with
  | nil => simp [referents]
  | cons p ps ih =>
      rw [referents, List.map_cons, List.mem_cons, ih, List.exists_mem_cons_iff]
      refine or_congr ?_ Iff.rfl
      unfold referent
      cases p.var with
      | none => simp
      | some other => simp [eq_comm]

/-- The numbers of patterns without a variable are given out one after the other. -/
theorem unnamed_mem_referents {count number : Nat} {ps : List NodePattern} :
    .unnamed number ∈ (referents count ps).map Prod.fst ↔
      count ≤ number ∧ number < count + anonymous ps := by
  induction ps generalizing count with
  | nil =>
      simp only [referents, List.map_nil, List.not_mem_nil, anonymous, List.countP_nil, false_iff]
      omega
  | cons p ps ih =>
      rw [referents, List.map_cons, List.mem_cons, ih, anonymous_cons p ps]
      cases hvar : p.var with
      | some name =>
          simp only [referent, hvar, anonymous_singleton_of_some hvar, reduceCtorEq, false_or]
          omega
      | none =>
          simp only [referent, hvar, anonymous_singleton_of_none hvar, Referent.unnamed.injEq]
          omega

end NodePattern

namespace Referent

variable {taken : List String} {rs : List (Referent × NodePattern)}

theorem unnamed_mem_due {number : Nat} (h : .unnamed number ∈ rs.map Prod.fst) :
    .unnamed number ∈ (due taken rs).map Prod.fst := by
  induction rs generalizing taken with
  | nil => cases h
  | cons r rest ih =>
      obtain ⟨referent, p⟩ := r
      rcases List.mem_cons.mp h with hfirst | hrest
      · cases hfirst
        exact List.mem_cons_self
      · cases referent with
        | unnamed other => exact List.mem_cons_of_mem _ (ih hrest)
        | named name =>
            unfold due
            split
            · exact ih hrest
            · exact List.mem_cons_of_mem _ (ih hrest)

theorem named_mem_due {name : String} (h : .named name ∈ rs.map Prod.fst) (hnew : name ∉ taken) :
    .named name ∈ (due taken rs).map Prod.fst := by
  induction rs generalizing taken with
  | nil => cases h
  | cons r rest ih =>
      obtain ⟨referent, p⟩ := r
      cases referent with
      | unnamed other =>
          rcases List.mem_cons.mp h with hfirst | hrest
          · cases hfirst
          · exact List.mem_cons_of_mem _ (ih hrest hnew)
      | named other =>
          unfold due
          by_cases hsame : other = name
          · subst hsame
            rw [if_neg hnew]
            exact List.mem_cons_self
          · have hrest : .named name ∈ rest.map Prod.fst := by
              rcases List.mem_cons.mp h with hfirst | hrest
              · cases hfirst
                exact (hsame rfl).elim
              · exact hrest
            split
            · exact ih hrest hnew
            · refine List.mem_cons_of_mem _ (ih hrest ?_)
              rw [List.mem_cons, not_or]
              exact ⟨Ne.symm hsame, hnew⟩

end Referent

/-! ## Nodes told apart by keys -/

namespace KeyedNode

/-- The first node of each key that is not taken. -/
def fresh (taken : List String) : List KeyedNode → List KeyedNode
  | [] => []
  | k :: ks => if k.key ∈ taken then fresh taken ks else k :: fresh (k.key :: taken) ks

theorem fresh_congr {taken other : List String} (ks : List KeyedNode)
    (h : ∀ key, key ∈ taken ↔ key ∈ other) : fresh taken ks = fresh other ks := by
  induction ks generalizing taken other with
  | nil => rfl
  | cons k ks ih =>
      have hcons : ∀ key, key ∈ k.key :: taken ↔ key ∈ k.key :: other := by
        intro key
        rw [List.mem_cons, List.mem_cons, h]
      rw [fresh, fresh, ih h, ih hcons]
      exact if_congr (h k.key) rfl rfl

/-- Collecting nodes keeps those that are there and adds the first of each new key. -/
theorem collect_eq (nodes : List (String × Node)) (ks : List KeyedNode) :
    collect nodes ks = nodes ++ (fresh (nodes.map Prod.fst) ks).map fun k => (k.key, k.node) := by
  induction ks generalizing nodes with
  | nil => simp [collect, fresh]
  | cons k ks ih =>
      have hany : nodes.any (·.1 = k.key) = true ↔ k.key ∈ nodes.map Prod.fst := by simp
      unfold collect fresh
      by_cases hknown : k.key ∈ nodes.map Prod.fst
      · rw [if_pos (hany.mpr hknown), if_pos hknown, ih]
      · have hkeys : ∀ key, key ∈ (nodes ++ [(k.key, k.node)]).map Prod.fst ↔
            key ∈ k.key :: nodes.map Prod.fst := by
          intro key
          rw [List.map_append, List.mem_append, List.mem_cons, or_comm]
          simp
        rw [if_neg (mt hany.mp hknown), if_neg hknown, ih, fresh_congr ks hkeys]
        simp

/-- Leaving out keys afterwards is taking them beforehand. -/
theorem filter_fresh {taken gone both : List String} (ks : List KeyedNode)
    (h : ∀ key, key ∈ both ↔ key ∈ taken ∨ key ∈ gone) :
    (fresh taken ks).filter (fun k => decide (k.key ∉ gone)) = fresh both ks := by
  induction ks generalizing taken both with
  | nil => rfl
  | cons k ks ih =>
      unfold fresh
      by_cases htaken : k.key ∈ taken
      · rw [if_pos htaken, if_pos ((h _).mpr (Or.inl htaken))]
        exact ih h
      · rw [if_neg htaken]
        by_cases hgone : k.key ∈ gone
        · rw [if_pos ((h _).mpr (Or.inr hgone)), List.filter_cons_of_neg (by simpa using hgone)]
          refine ih fun key => ?_
          rw [h, List.mem_cons]
          constructor
          · rintro (hkey | hkey)
            · exact Or.inl (Or.inr hkey)
            · exact Or.inr hkey
          · rintro ((rfl | hkey) | hkey)
            · exact Or.inr hgone
            · exact Or.inl hkey
            · exact Or.inr hkey
        · have hboth : k.key ∉ both := by
            rw [h]
            exact not_or.mpr ⟨htaken, hgone⟩
          rw [if_neg hboth, List.filter_cons_of_pos (by simpa using hgone)]
          refine congrArg (k :: ·) (ih fun key => ?_)
          rw [List.mem_cons, List.mem_cons, h, or_assoc]

theorem mem_fresh {taken : List String} {ks : List KeyedNode} {k : KeyedNode}
    (h : k ∈ fresh taken ks) : k ∈ ks ∧ k.key ∉ taken := by
  induction ks generalizing taken with
  | nil => cases h
  | cons first ks ih =>
      unfold fresh at h
      split at h
      · obtain ⟨hmem, hnew⟩ := ih h
        exact ⟨List.mem_cons_of_mem _ hmem, hnew⟩
      · next hfirst =>
          rcases List.mem_cons.mp h with rfl | hrest
          · exact ⟨List.mem_cons_self, hfirst⟩
          · obtain ⟨hmem, hnew⟩ := ih hrest
            exact ⟨List.mem_cons_of_mem _ hmem, fun htaken => hnew (List.mem_cons_of_mem _ htaken)⟩

theorem nodup_keys_fresh (taken : List String) (ks : List KeyedNode) :
    ((fresh taken ks).map KeyedNode.key).Nodup := by
  induction ks generalizing taken with
  | nil => exact List.nodup_nil
  | cons k ks ih =>
      unfold fresh
      split
      · exact ih taken
      · refine List.nodup_cons.mpr ⟨?_, ih (k.key :: taken)⟩
        intro hmem
        obtain ⟨other, hother, hkey⟩ := List.mem_map.mp hmem
        exact (mem_fresh hother).2 (hkey ▸ List.mem_cons_self)

end KeyedNode

/-! ## Created as written -/

/-- A node literal under the key of what its pattern stands for. -/
structure Referent.Keys (n : Nat) (r : Referent × NodePattern) (k : KeyedNode) : Prop where
  describes : r.2.Describes k.node
  key : k.key = r.1.key n
  endpoint : k.node.endpoint? = some k.key

section Keys

variable {n : Nat} {scope : Schema}

/-- If no key is taken for another, the first node of each key is the one that is due. The induction
is on the node patterns; `taken` are the variables met so far and `keys` all the keys. -/
theorem Referent.forall₂_due_fresh {ps : List NodePattern} {ks : List KeyedNode}
    {taken keys : List String} {count : Nat}
    (h : List.Forall₂ (Referent.Keys n) (NodePattern.referents count ps) ks)
    (hvars : ∀ p ∈ ps, ∀ v, p.var = some v → (v ∈ taken ↔ v ∈ keys))
    (hkeys : ∀ number, count ≤ number → number < count + NodePattern.anonymous ps →
      Draft.anonymousKey (n + number) ∉ keys ∧
        ∀ p ∈ ps, p.var ≠ some (Draft.anonymousKey (n + number))) :
    List.Forall₂ (Referent.Keys n) (Referent.due taken (NodePattern.referents count ps))
      (KeyedNode.fresh keys ks) := by
  induction ps generalizing count ks taken keys with
  | nil =>
      cases h
      exact .nil
  | cons p ps ih =>
      obtain ⟨hvar, hvars⟩ := List.forall_mem_cons.mp hvars
      rw [NodePattern.anonymous_cons p ps] at hkeys
      cases h with
      | @cons _ k _ ks hfirst hrest =>
          have hkey := hfirst.key
          cases hp : p.var with
          | some v =>
              have hreferent : p.referent count = .named v := by rw [NodePattern.referent, hp]
              rw [NodePattern.anonymous_singleton_of_some hp] at hrest hkeys
              rw [hreferent] at hkey hfirst
              change k.key = v at hkey
              rw [NodePattern.referents, hreferent, Referent.due, KeyedNode.fresh, hkey,
                NodePattern.anonymous_singleton_of_some hp]
              by_cases hknown : v ∈ taken
              · rw [if_pos hknown, if_pos ((hvar v hp).mp hknown)]
                refine ih hrest hvars fun number hle hlt => ?_
                obtain ⟨hnew, hothers⟩ := hkeys number hle (by omega)
                exact ⟨hnew, (List.forall_mem_cons.mp hothers).2⟩
              · rw [if_neg hknown, if_neg (mt (hvar v hp).mpr hknown)]
                refine .cons hfirst (ih hrest ?_ ?_)
                · intro other hother w hw
                  rw [List.mem_cons, List.mem_cons, hvars other hother w hw]
                · intro number hle hlt
                  obtain ⟨hnew, hothers⟩ := hkeys number hle (by omega)
                  obtain ⟨hself, hothers⟩ := List.forall_mem_cons.mp hothers
                  refine ⟨?_, hothers⟩
                  rw [List.mem_cons, not_or]
                  exact ⟨fun hsame => hself (by rw [hp, hsame]), hnew⟩
          | none =>
              have hreferent : p.referent count = .unnamed count := by rw [NodePattern.referent, hp]
              rw [NodePattern.anonymous_singleton_of_none hp] at hrest hkeys
              rw [hreferent] at hkey hfirst
              change k.key = Draft.anonymousKey (n + count) at hkey
              obtain ⟨hnew, hothers⟩ := hkeys count (Nat.le_refl count) (by omega)
              rw [NodePattern.referents, hreferent, Referent.due, KeyedNode.fresh, hkey,
                if_neg hnew, NodePattern.anonymous_singleton_of_none hp]
              refine .cons hfirst (ih hrest ?_ ?_)
              · intro other hother w hw
                have hne : w ≠ Draft.anonymousKey (n + count) := by
                  rintro rfl
                  exact (List.forall_mem_cons.mp hothers).2 other hother hw
                rw [hvars other hother w hw, List.mem_cons, or_iff_right hne]
              · intro number hle hlt
                obtain ⟨hfar, hothers⟩ := hkeys number (by omega) (by omega)
                refine ⟨?_, (List.forall_mem_cons.mp hothers).2⟩
                rw [List.mem_cons, not_or]
                refine ⟨fun hsame => ?_, hfar⟩
                have := Draft.anonymousKey_injective hsame
                omega

/-- If as many nodes have keys of their own as are due, no key is taken for another: the keys are
among those that are due, so they are all of these. -/
theorem Referent.keys_of_length {rs : List (Referent × NodePattern)} {ks : List KeyedNode}
    {taken : List String} (h : List.Forall₂ (Referent.Keys n) rs ks)
    (hlength : (Referent.due taken rs).length = (KeyedNode.fresh taken ks).length) :
    ((Referent.due taken rs).map fun r => r.1.key n).Nodup ∧
      ∀ r ∈ Referent.due taken rs, r.1.key n ∉ taken := by
  have hsubset : (KeyedNode.fresh taken ks).map KeyedNode.key ⊆
      (Referent.due taken rs).map fun r => r.1.key n := by
    intro key hkey
    obtain ⟨k, hk, rfl⟩ := List.mem_map.mp hkey
    obtain ⟨hmem, hnew⟩ := KeyedNode.mem_fresh hk
    obtain ⟨r, hr, hkeys⟩ := exists_mem_of_forall₂ h hmem
    have hreferent : r.1 ∈ (Referent.due taken rs).map Prod.fst := by
      have hfst := List.mem_map_of_mem (f := Prod.fst) hr
      rw [hkeys.key] at hnew
      cases hr1 : r.1 with
      | unnamed number =>
          rw [hr1] at hfst
          exact Referent.unnamed_mem_due hfst
      | named name =>
          rw [hr1] at hfst hnew
          exact Referent.named_mem_due hfst hnew
    obtain ⟨due, hdue, hsame⟩ := List.mem_map.mp hreferent
    exact List.mem_map.mpr ⟨due, hdue, by rw [hsame, hkeys.key]⟩
  have hperm : (KeyedNode.fresh taken ks).map KeyedNode.key |>.Perm
      ((Referent.due taken rs).map fun r => r.1.key n) := by
    have hsubperm := List.subperm_of_subset (KeyedNode.nodup_keys_fresh taken ks) hsubset
    refine hsubperm.perm_of_length_le ?_
    rw [List.length_map, List.length_map]
    exact Nat.le_of_eq hlength
  refine ⟨hperm.nodup_iff.mp (KeyedNode.nodup_keys_fresh taken ks), ?_⟩
  intro r hr
  have hmem := hperm.mem_iff.mpr (List.mem_map_of_mem (f := fun r => r.1.key n) hr)
  obtain ⟨k, hk, hkey⟩ := List.mem_map.mp hmem
  exact hkey ▸ (KeyedNode.mem_fresh hk).2

/-- With fresh keys, what is in sight is told apart by its keys. -/
theorem KeysFresh.key_injective {ps : List Pattern} (h : KeysFresh scope n ps) {r s : Referent}
    (hr : r.InSight scope ps) (hs : s.InSight scope ps) (hkey : r.key n = s.key n) : r = s := by
  have hdiffer (number : Nat) (name : String)
      (hnumber : (Referent.unnamed number).InSight scope ps)
      (hname : (Referent.named name).InSight scope ps) :
      Draft.anonymousKey (n + number) ≠ name := by
    rintro rfl
    have hlt : number < Pattern.anonymous ps := by
      rcases hnumber with hmem | ⟨_, _, hne⟩
      · rw [NodePattern.unnamed_mem_referents, Nat.zero_add] at hmem
        exact hmem.2
      · cases hne
    obtain ⟨hscope, hvars⟩ := h number hlt
    rcases hname with hmem | ⟨name, hname, heq⟩
    · obtain ⟨p, hp, hvar⟩ := NodePattern.named_mem_referents.mp hmem
      exact hvars p hp hvar
    · cases heq
      exact hscope hname
  cases r with
  | named v =>
      cases s with
      | named w => exact congrArg Referent.named hkey
      | unnamed number => exact (hdiffer number v hs hr hkey.symm).elim
  | unnamed number =>
      cases s with
      | named w => exact (hdiffer number w hr hs hkey).elim
      | unnamed other =>
          have := Draft.anonymousKey_injective hkey
          rw [Nat.add_left_cancel this]

/-- **Nodes are created as written exactly if the keys made up for them are fresh.** -/
theorem createsAsWritten_iff {ps : List Pattern} {ks : List KeyedNode} {edges : List Edge}
    (hnodes : List.Forall₂ (Referent.Keys n)
      (NodePattern.referents 0 (ps.flatMap Pattern.nodes)) ks)
    (hedges : List.Forall₂ (Relationship.Describes (Referent.key n))
      (Relationship.ofPatterns 0 ps) edges) :
    CreatesAsWritten scope ps ((KeyedNode.fresh scope.names ks).map KeyedNode.node) edges ↔
      KeysFresh scope n ps := by
  constructor
  · rintro ⟨name, -, -, hdue, -⟩
    have hlength := hdue.length_eq
    rw [List.length_map] at hlength
    obtain ⟨hnodup, hnew⟩ := Referent.keys_of_length hnodes hlength
    intro number hnumber
    have hreferent : .unnamed number ∈ (Referent.due scope.names
        (NodePattern.referents 0 (ps.flatMap Pattern.nodes))).map Prod.fst := by
      refine Referent.unnamed_mem_due (NodePattern.unnamed_mem_referents.mpr ⟨Nat.zero_le _, ?_⟩)
      rw [Nat.zero_add]
      exact hnumber
    obtain ⟨due, hmem, hsame⟩ := List.mem_map.mp hreferent
    have hscope : Draft.anonymousKey (n + number) ∉ scope.names := by
      have := hnew due hmem
      rwa [hsame] at this
    refine ⟨hscope, fun p hp hvar => ?_⟩
    -- A variable of that name is new too, so both are due under one key.
    have hnamed := Referent.named_mem_due
      (NodePattern.named_mem_referents.mpr ⟨p, hp, hvar⟩ :
        .named (Draft.anonymousKey (n + number)) ∈
          (NodePattern.referents 0 (ps.flatMap Pattern.nodes)).map Prod.fst) hscope
    obtain ⟨other, hother, hname⟩ := List.mem_map.mp hnamed
    have hkey : due.1.key n = other.1.key n := by
      rw [hsame, hname]
      rfl
    have heq := List.inj_on_of_nodup_map hnodup hmem hother hkey
    rw [heq, hname] at hsame
    cases hsame
  · intro hfresh
    refine ⟨Referent.key n, fun _ => rfl, fun r s hr hs => hfresh.key_injective hr hs, ?_, hedges⟩
    rw [List.forall₂_map_right_iff]
    have hkeyed : List.Forall₂ (Referent.Keys n) (Referent.due scope.names _)
        (KeyedNode.fresh scope.names ks) :=
      Referent.forall₂_due_fresh hnodes (fun _ _ _ _ => Iff.rfl) fun number _ hlt =>
        hfresh number (by rwa [Nat.zero_add] at hlt)
    refine hkeyed.imp fun r k hk => ⟨hk.describes, ?_⟩
    rw [hk.endpoint, hk.key]

end Keys

/-! ## What the lowering creates -/

theorem createNode_eq_ok {scope : Schema} {n m : Nat} {p : NodePattern} {k : KeyedNode}
    (h : createNode scope n p = .ok (k, m)) : p.toNode n = .ok (k, m) := by
  unfold createNode at h
  split at h
  · split at h
    · cases h
    · exact h
  · exact h

/-- A node is made for its pattern, under the key of what it stands for. -/
theorem createNode_keys {scope : Schema} {n count m : Nat} {p : NodePattern} {k : KeyedNode}
    (h : createNode scope (n + count) p = .ok (k, m)) :
    Referent.Keys n (p.referent count, p) k ∧ m = n + (count + NodePattern.anonymous [p]) := by
  obtain ⟨hdescribes, hkey, hendpoint, hcount⟩ := NodePattern.toNode_eq_ok (createNode_eq_ok h)
  refine ⟨⟨hdescribes, ?_, hendpoint⟩, by omega⟩
  rw [hkey, NodePattern.referent]
  cases p.var <;> rfl

/-- An edge is made for its relationship; its ends are those that it is attached to. -/
theorem createEdge_describes {name : Referent → String} {p : EdgePattern} {left right : Referent}
    {bound : BoundEdge} (h : createEdge p (name left) (name right) = .ok bound) :
    Relationship.Describes name ⟨p, left, right⟩ bound.edge ∧
      bound.left = bound.edge.source ∧ bound.right = bound.edge.target := by
  unfold createEdge at h
  cases hdirection : p.direction with
  | undirected =>
      rw [hdirection] at h
      cases h
  | outgoing | incoming =>
      rw [hdirection] at h
      obtain ⟨_, hends, h⟩ := bind_eq_ok.mp h
      cases hends
      obtain ⟨_, -, h⟩ := bind_eq_ok.mp h
      obtain ⟨_, -, h⟩ := bind_eq_ok.mp h
      obtain ⟨properties, hproperties, h⟩ := bind_eq_ok.mp h
      cases h
      exact ⟨⟨rfl, hproperties, rfl, rfl, rfl, by simp [hdirection, EdgeOf.single]⟩, rfl, rfl⟩

/-- What a pattern creates: a node for each of its nodes and an edge for each of its relationships,
under the keys of what they stand for. -/
structure Creation.IsOf (n count : Nat) (nodes : List NodePattern) (edges : List Relationship)
    (created : Creation) : Prop where
  nodes : List.Forall₂ (Referent.Keys n) (NodePattern.referents count nodes) created.nodes
  edges : List.Forall₂ (fun r (bound : BoundEdge) => r.Describes (Referent.key n) bound.edge)
    edges created.edges
  attached : ∀ bound ∈ created.edges,
    bound.left = bound.edge.source ∧ bound.right = bound.edge.target

theorem createPattern_isOf {scope : Schema} {n count m : Nat} {p : Pattern} {created : Creation}
    (h : createPattern scope (n + count) p = .ok (created, m)) :
    created.IsOf n count p.nodes (p.relationships count) ∧
      m = n + (count + NodePattern.anonymous p.nodes) := by
  obtain ⟨_, -, h⟩ := bind_eq_ok.mp h
  obtain ⟨_, hlength, h⟩ := bind_eq_ok.mp h
  obtain ⟨⟨left, k⟩, hleft, h⟩ := bind_eq_ok.mp h
  obtain ⟨hleftKeys, rfl⟩ := createNode_keys hleft
  cases hedges : p.edges with
  | nil =>
      simp only [hedges] at h
      cases h
      have hnodes : p.nodes = [p.source] := by rw [Pattern.nodes, hedges, List.map_nil]
      refine ⟨⟨?_, ?_, List.forall_mem_nil _⟩, by rw [hnodes]⟩
      · rw [hnodes]
        exact .cons hleftKeys .nil
      · rw [Pattern.relationships, hedges]
        exact .nil
  | cons edge rest =>
      -- There is at most one relationship.
      have hrest : rest = [] := by simpa [hedges] using hlength
      subst hrest
      simp only [hedges] at h
      obtain ⟨⟨right, k⟩, hright, h⟩ := bind_eq_ok.mp h
      obtain ⟨hrightKeys, rfl⟩ := createNode_keys hright
      obtain ⟨bound, hbound, h⟩ := bind_eq_ok.mp h
      cases h
      rw [hleftKeys.key, hrightKeys.key] at hbound
      obtain ⟨hdescribes, hattached⟩ := createEdge_describes hbound
      have hnodes : p.nodes = [p.source, edge.target] := by
        rw [Pattern.nodes, hedges, List.map_singleton]
      refine ⟨⟨?_, ?_, List.forall_mem_singleton.mpr hattached⟩, ?_⟩
      · rw [hnodes]
        exact .cons hleftKeys (.cons hrightKeys .nil)
      · rw [Pattern.relationships, hnodes, hedges]
        exact .cons hdescribes .nil
      · rw [hnodes, NodePattern.anonymous_cons p.source [edge.target]]
        omega

/-- By induction on the patterns: each draws its keys from where the ones before it left off. -/
theorem createPatterns_isOf {scope : Schema} {n count m : Nat} {ps : List Pattern}
    {created : Creation} (h : createPatterns scope (n + count) ps = .ok (created, m)) :
    created.IsOf n count (ps.flatMap Pattern.nodes) (Relationship.ofPatterns count ps) := by
  induction ps generalizing count created with
  | nil =>
      cases h
      exact ⟨.nil, .nil, List.forall_mem_nil _⟩
  | cons p ps ih =>
      obtain ⟨⟨first, k⟩, hfirst, h⟩ := bind_eq_ok.mp h
      obtain ⟨hisOf, rfl⟩ := createPattern_isOf hfirst
      obtain ⟨⟨rest, l⟩, hrest, h⟩ := bind_eq_ok.mp h
      cases h
      have hothers := ih hrest
      refine ⟨?_, ?_, ?_⟩
      · rw [List.flatMap_cons, NodePattern.referents_append]
        exact List.rel_append hisOf.nodes hothers.nodes
      · exact List.rel_append hisOf.edges hothers.edges
      · intro bound hbound
        rcases List.mem_append.mp hbound with hmem | hmem
        · exact hisOf.attached bound hmem
        · exact hothers.attached bound hmem

end QueryPlan
