import Mathlib.Logic.Basic
import QueryPlan.Catalog.Json

/-!
# Adding to a catalog

A call that adds something returns the number under which it is to be found. A namespace gets the
count of namespaces as its number, an entity one more than the greatest number in use. Nothing keeps
a catalog that was read in from having these numbers in use: its namespaces may be numbered in any
way, and one more than the greatest word of 64 bits is zero. `Catalog.HasRoom` says which calls go
well, and it is a condition on the catalog at the start alone.

Whatever happens, what was found is found still, because lookups take the first item under a number
and additions come last.
-/

namespace QueryPlan

/-- A call that adds something to a catalog. -/
inductive Addition
  | newNamespace (name : String) (model : Model)
  | newGraph (home : NamespaceId) (name : String)
  | newCollection (home : NamespaceId) (name : String)
  | newTable (home : NamespaceId) (name : String) (columns : List Field)
deriving DecidableEq, Repr

/-- An entity is added as asked: under a number that no entity has, by which it is found; all other
lookups have the answers they had. -/
structure Catalog.TakesUp (c : Catalog) (asked : EntityId → Entity) (r : Entity × Catalog) :
    Prop where
  asked : r.1 = asked r.1.id
  fresh : ∀ e ∈ c.entities, e.id ≠ r.1.id
  found : r.2.entity? r.1.id = some r.1
  others : ∀ id, id ≠ r.1.id → r.2.entity? id = c.entity? id
  namespaces : ∀ id, r.2.findNamespace? id = c.findNamespace? id

/-- The same for a namespace. -/
structure Catalog.TakesUpNamespace (c : Catalog) (asked : NamespaceId → Namespace)
    (r : NamespaceId × Catalog) : Prop where
  fresh : ∀ n ∈ c.namespaces, n.id ≠ r.1
  found : r.2.findNamespace? r.1 = some (asked r.1)
  others : ∀ id, id ≠ r.1 → r.2.findNamespace? id = c.findNamespace? id
  entities : ∀ id, r.2.entity? id = c.entity? id

namespace Addition

/-- The catalog after a call. -/
def perform (c : Catalog) : Addition → Catalog
  | newNamespace name model => (c.addNamespace name model).2
  | newGraph home name => (c.addGraph home name).2
  | newCollection home name => (c.addCollection home name).2
  | newTable home name columns => (c.addTable home name columns).2

/-- The call adds what it says, where nothing was. -/
def GoesWell (c : Catalog) : Addition → Prop
  | newNamespace name model => c.TakesUpNamespace (⟨·, name, model⟩) (c.addNamespace name model)
  | newGraph home name => c.TakesUp (⟨·, name, home, .graph, []⟩) (c.addGraph home name)
  | newCollection home name =>
    c.TakesUp (⟨·, name, home, .document, []⟩) (c.addCollection home name)
  | newTable home name columns =>
    c.TakesUp (⟨·, name, home, .relational, columns⟩) (c.addTable home name columns)

def isNamespace : Addition → Bool
  | newNamespace _ _ => true
  | _ => false

end Addition

namespace Catalog

/-- The catalog after calls in order. -/
def after (c : Catalog) (calls : List Addition) : Catalog := calls.foldl Addition.perform c

/-- Each of the calls goes well after those before it. -/
def AllGoWell (c : Catalog) (calls : List Addition) : Prop :=
  ∀ (i : Nat) (a : Addition), calls[i]? = some a → a.GoesWell (c.after (calls.take i))

/-- What is found in one catalog is found in the other. -/
structure FoundIn (c d : Catalog) : Prop where
  namespaces : ∀ id n, c.findNamespace? id = some n → d.findNamespace? id = some n
  entities : ∀ id e, c.entity? id = some e → d.entity? id = some e

/-- None of the next numbers for namespaces is in use, and there are enough of them. -/
structure HasRoomForNamespaces (c : Catalog) (count : Nat) : Prop where
  enough : count ≤ UInt64.size
  unused : ∀ i < count, ∀ n ∈ c.namespaces, n.id.index ≠ (c.namespaces.length + i).toUInt64

/-- The numbers above those in use are enough, or they are together with zero, which is given out
last. -/
def HasRoomForEntities (c : Catalog) (count : Nat) : Prop :=
  (count < UInt64.size ∧ ∀ e ∈ c.entities, e.id.index.toNat + count < UInt64.size) ∨
    (count ≤ UInt64.size ∧
      ∀ e ∈ c.entities, e.id.index ≠ 0 ∧ e.id.index.toNat + count ≤ UInt64.size)

/-- There are numbers for what the calls add. -/
structure HasRoom (c : Catalog) (calls : List Addition) : Prop where
  namespaces : c.HasRoomForNamespaces (calls.countP Addition.isNamespace)
  entities : c.HasRoomForEntities (calls.countP fun a => !a.isNamespace)

/-! ## Lookups after an addition -/

section Lookups

variable {α κ : Type} [DecidableEq κ] {key : α → κ} {items : List α} {a b : α} {k : κ}

theorem find?_concat_of_some (h : items.find? (key · = k) = some b) (a : α) :
    (items ++ [a]).find? (key · = k) = some b := by
  rw [List.find?_append, h, Option.some_or]

theorem find?_concat_of_ne (h : k ≠ key a) :
    (items ++ [a]).find? (key · = k) = items.find? (key · = k) := by
  have hnone : [a].find? (key · = k) = none := by simpa using h.symm
  rw [List.find?_append, hnone, Option.or_none]

theorem find?_concat_self (hkey : key a = k) (h : ∀ b ∈ items, key b ≠ k) :
    (items ++ [a]).find? (key · = k) = some a := by
  have hnone : items.find? (key · = k) = none := by simpa using h
  rw [List.find?_append, hnone, Option.none_or]
  simp [hkey]

end Lookups

theorem takesUpNamespace_iff (c : Catalog) (name : String) (model : Model) :
    c.TakesUpNamespace (⟨·, name, model⟩) (c.addNamespace name model) ↔
      ∀ n ∈ c.namespaces, n.id.index ≠ c.namespaces.length.toUInt64 := by
  constructor
  · intro h n hn heq
    exact h.fresh n hn (congrArg NamespaceId.mk heq)
  · intro h
    have hfresh : ∀ n ∈ c.namespaces, n.id ≠ ⟨c.namespaces.length.toUInt64⟩ :=
      fun n hn heq => h n hn (congrArg NamespaceId.index heq)
    exact ⟨hfresh, find?_concat_self rfl hfresh, fun _ hid => find?_concat_of_ne hid, fun _ => rfl⟩

theorem takesUp_iff (c : Catalog) (home : NamespaceId) (name : String) (model : Model)
    (columns : List Field) :
    c.TakesUp (⟨·, name, home, model, columns⟩) (c.addEntity home name model columns) ↔
      ∀ e ∈ c.entities, e.id ≠ c.nextEntityId := by
  constructor
  · intro h
    exact h.fresh
  · intro h
    exact ⟨rfl, h, find?_concat_self rfl h, fun _ hid => find?_concat_of_ne hid, fun _ => rfl⟩

/-! ## The next numbers -/

/-- The greatest number in use, or zero. -/
def greatestId (c : Catalog) : UInt64 :=
  c.entities.foldl (fun greatest e => max greatest e.id.index) 0

theorem toNat_max (a b : UInt64) : (max a b).toNat = max a.toNat b.toNat := by
  show (if a ≤ b then b else a).toNat = max a.toNat b.toNat
  split
  · next h => exact (Nat.max_eq_right (UInt64.le_iff_toNat_le.mp h)).symm
  · next h =>
      rw [UInt64.le_iff_toNat_le, Nat.not_le] at h
      exact (Nat.max_eq_left (Nat.le_of_lt h)).symm

/-- A bound of all numbers in use is one of the greatest. -/
theorem foldl_max_le_iff (es : List Entity) (start : UInt64) (bound : Nat) :
    (es.foldl (fun greatest e => max greatest e.id.index) start).toNat ≤ bound ↔
      start.toNat ≤ bound ∧ ∀ e ∈ es, e.id.index.toNat ≤ bound := by
  induction es generalizing start with
  | nil => simp
  | cons e es ih => rw [List.foldl_cons, ih, toNat_max, Nat.max_le, List.forall_mem_cons, and_assoc]

variable (c : Catalog)

theorem greatestId_le_iff (bound : Nat) :
    c.greatestId.toNat ≤ bound ↔ ∀ e ∈ c.entities, e.id.index.toNat ≤ bound := by
  rw [greatestId, foldl_max_le_iff]
  exact and_iff_right (Nat.zero_le bound)

theorem le_greatestId {e : Entity} (h : e ∈ c.entities) : e.id.index.toNat ≤ c.greatestId.toNat :=
  (c.greatestId_le_iff _).mp (Nat.le_refl _) e h

theorem greatestId_add_le_iff (count bound : Nat) :
    c.greatestId.toNat + count ≤ bound ↔
      count ≤ bound ∧ ∀ e ∈ c.entities, e.id.index.toNat + count ≤ bound := by
  constructor
  · intro h
    refine ⟨by omega, fun e he => ?_⟩
    have hle := c.le_greatestId he
    omega
  · rintro ⟨hcount, hall⟩
    have hle : c.greatestId.toNat ≤ bound - count := by
      rw [greatestId_le_iff]
      intro e he
      have := hall e he
      omega
    omega

/-- Room for entities, by the greatest number in use. -/
theorem hasRoomForEntities_iff (count : Nat) : c.HasRoomForEntities count ↔
    c.greatestId.toNat + count < UInt64.size ∨
      (c.greatestId.toNat + count ≤ UInt64.size ∧ ∀ e ∈ c.entities, e.id.index ≠ 0) := by
  have hbelow : c.greatestId.toNat + count < UInt64.size ↔
      count < UInt64.size ∧ ∀ e ∈ c.entities, e.id.index.toNat + count < UInt64.size :=
    c.greatestId_add_le_iff (count + 1) UInt64.size
  have hupTo := c.greatestId_add_le_iff count UInt64.size
  rw [HasRoomForEntities, hbelow, hupTo, and_assoc, forall₂_and]
  exact or_congr_right (and_congr_right fun _ => and_comm)

theorem toNat_nextEntityId :
    c.nextEntityId.index.toNat = (c.greatestId.toNat + 1) % UInt64.size :=
  UInt64.toNat_add c.greatestId 1

theorem nextEntityId_eq_zero (h : c.greatestId.toNat + 1 = UInt64.size) :
    c.nextEntityId.index = 0 := by
  rw [← UInt64.toNat_inj, toNat_nextEntityId, h]
  rfl

/-- The next number is not in use unless the greatest and the least both are. -/
theorem nextEntityId_unused_iff : (∀ e ∈ c.entities, e.id ≠ c.nextEntityId) ↔
    c.greatestId.toNat + 1 < UInt64.size ∨ ∀ e ∈ c.entities, e.id.index ≠ 0 := by
  have hle : c.greatestId.toNat + 1 ≤ UInt64.size := c.greatestId.toNat_lt
  rcases Nat.lt_or_eq_of_le hle with hlt | heq
  · refine iff_of_true ?_ (Or.inl hlt)
    intro e he hid
    have hbound := c.le_greatestId he
    rw [hid, toNat_nextEntityId, Nat.mod_eq_of_lt hlt] at hbound
    omega
  · rw [or_iff_right (by omega)]
    refine forall₂_congr fun e _ => not_congr ?_
    rw [← c.nextEntityId_eq_zero heq]
    exact ⟨congrArg EntityId.index, congrArg EntityId.mk⟩

variable (home : NamespaceId) (name : String) (model : Model) (columns : List Field)

theorem greatestId_addEntity : (c.addEntity home name model columns).2.greatestId =
    max c.greatestId c.nextEntityId.index :=
  List.foldl_append ..

/-- **One more entity**: room for it is a number for it, and room for the others after it. -/
theorem hasRoomForEntities_succ_iff (count : Nat) : c.HasRoomForEntities (count + 1) ↔
    (∀ e ∈ c.entities, e.id ≠ c.nextEntityId) ∧
      (c.addEntity home name model columns).2.HasRoomForEntities count := by
  have hentities : (∀ e ∈ (c.addEntity home name model columns).2.entities, e.id.index ≠ 0) ↔
      (∀ e ∈ c.entities, e.id.index ≠ 0) ∧ c.nextEntityId.index ≠ 0 := by
    show (∀ e ∈ c.entities ++ [⟨c.nextEntityId, name, home, model, columns⟩], e.id.index ≠ 0) ↔ _
    rw [List.forall_mem_append, List.forall_mem_singleton]
  rw [hasRoomForEntities_iff, hasRoomForEntities_iff, nextEntityId_unused_iff,
    greatestId_addEntity, toNat_max, hentities]
  have hle : c.greatestId.toNat + 1 ≤ UInt64.size := c.greatestId.toNat_lt
  rcases Nat.lt_or_eq_of_le hle with hlt | heq
  · -- The next number is above the others.
    have hnext : c.nextEntityId.index.toNat = c.greatestId.toNat + 1 := by
      rw [toNat_nextEntityId, Nat.mod_eq_of_lt hlt]
    have hne : c.nextEntityId.index ≠ 0 := by
      intro hzero
      rw [hzero] at hnext
      cases hnext
    have hmax : max c.greatestId.toNat (c.greatestId.toNat + 1) = c.greatestId.toNat + 1 :=
      Nat.max_eq_right (Nat.le_succ _)
    rw [hnext, hmax, and_iff_left hne, and_iff_right (Or.inl hlt), Nat.add_assoc, Nat.add_comm 1]
  · -- The next number is zero, and there is none after it.
    have hnext := c.nextEntityId_eq_zero heq
    have hmax : max c.greatestId.toNat (UInt64.toNat 0) = c.greatestId.toNat :=
      Nat.max_eq_left (Nat.zero_le _)
    have hfull : ¬c.greatestId.toNat + 1 < UInt64.size := by omega
    have hfuller : ¬c.greatestId.toNat + (count + 1) < UInt64.size := by omega
    rw [hnext, hmax, or_iff_right hfull, or_iff_right hfuller, and_comm]
    refine and_congr_right fun _ => ?_
    exact ⟨Or.inl, fun h => h.resolve_right fun hzero => hzero.2.2 rfl⟩

theorem toUInt64_eq_iff (m n : Nat) :
    m.toUInt64 = n.toUInt64 ↔ m % UInt64.size = n % UInt64.size := UInt64.toNat_inj.symm

/-- **One more namespace.** -/
theorem hasRoomForNamespaces_succ_iff (count : Nat) : c.HasRoomForNamespaces (count + 1) ↔
    (∀ n ∈ c.namespaces, n.id.index ≠ c.namespaces.length.toUInt64) ∧
      (c.addNamespace name model).2.HasRoomForNamespaces count := by
  have hsize : UInt64.size = 18446744073709551616 := rfl
  have hnamespaces : (c.addNamespace name model).2.namespaces =
    c.namespaces ++ [⟨⟨c.namespaces.length.toUInt64⟩, name, model⟩] := rfl
  have hnext : ∀ i, c.namespaces.length + 1 + i = c.namespaces.length + (i + 1) := by
    intro i
    omega
  constructor
  · rintro ⟨henough, hunused⟩
    refine ⟨hunused 0 (Nat.succ_pos count), Nat.le_of_succ_le henough, ?_⟩
    intro i hi n hn
    rw [hnamespaces, List.length_append, List.length_singleton, hnext]
    rw [hnamespaces, List.mem_append, List.mem_singleton] at hn
    rcases hn with hn | rfl
    · exact hunused (i + 1) (Nat.succ_lt_succ hi) n hn
    · -- The calls are too few to come back to the same number.
      rw [ne_eq, toUInt64_eq_iff, hsize]
      omega
  · rintro ⟨hfresh, henough, hunused⟩
    simp only [hnamespaces, List.length_append, List.length_singleton, hnext,
      List.forall_mem_append, List.forall_mem_singleton] at hunused
    refine ⟨Nat.lt_of_le_of_ne henough ?_, ?_⟩
    · rintro rfl
      have hnew := (hunused (UInt64.size - 1) (by decide)).2
      rw [ne_eq, toUInt64_eq_iff, hsize] at hnew
      omega
    · intro i hi
      cases i with
      | zero => exact hfresh
      | succ i => exact (hunused i (Nat.lt_of_succ_lt_succ hi)).1

end Catalog

/-! ## Calls in order -/

namespace Catalog

variable (c : Catalog) (calls : List Addition)

theorem hasRoom_iff : c.HasRoom calls ↔
    c.HasRoomForNamespaces (calls.countP Addition.isNamespace) ∧
      c.HasRoomForEntities (calls.countP fun a => !a.isNamespace) :=
  ⟨fun h => ⟨h.namespaces, h.entities⟩, fun h => ⟨h.1, h.2⟩⟩

theorem hasRoom_nil : c.HasRoom [] :=
  ⟨⟨Nat.zero_le _, fun _ hi => absurd hi (Nat.not_lt_zero _)⟩,
    Or.inl ⟨by decide, fun e _ => e.id.index.toNat_lt⟩⟩

/-- Entities take no room from namespaces. -/
theorem hasRoomForNamespaces_addEntity_iff (home : NamespaceId) (name : String) (model : Model)
    (columns : List Field) (count : Nat) :
    (c.addEntity home name model columns).2.HasRoomForNamespaces count ↔
      c.HasRoomForNamespaces count :=
  ⟨fun h => ⟨h.enough, h.unused⟩, fun h => ⟨h.enough, h.unused⟩⟩

theorem hasRoom_namespace_iff (name : String) (model : Model) :
    c.HasRoom (.newNamespace name model :: calls) ↔
      c.TakesUpNamespace (⟨·, name, model⟩) (c.addNamespace name model) ∧
        (c.addNamespace name model).2.HasRoom calls := by
  rw [hasRoom_iff, hasRoom_iff, List.countP_cons_of_pos rfl,
    List.countP_cons_of_neg (by simp [Addition.isNamespace]),
    c.hasRoomForNamespaces_succ_iff name model, takesUpNamespace_iff, and_assoc]
  exact Iff.rfl

theorem hasRoom_entity_iff (a : Addition) (ha : a.isNamespace = false) (home : NamespaceId)
    (name : String) (model : Model) (columns : List Field) :
    c.HasRoom (a :: calls) ↔
      c.TakesUp (⟨·, name, home, model, columns⟩) (c.addEntity home name model columns) ∧
        (c.addEntity home name model columns).2.HasRoom calls := by
  rw [hasRoom_iff, hasRoom_iff, List.countP_cons_of_neg (by simp [ha]),
    List.countP_cons_of_pos (by simp [ha]), c.hasRoomForEntities_succ_iff home name model columns,
    takesUp_iff, hasRoomForNamespaces_addEntity_iff, and_left_comm]

/-- **One call**: there is room for all calls exactly if the first goes well and leaves room for the
others. -/
theorem hasRoom_cons_iff (a : Addition) :
    c.HasRoom (a :: calls) ↔ a.GoesWell c ∧ (a.perform c).HasRoom calls := by
  cases a with
  | newNamespace name model => exact c.hasRoom_namespace_iff calls name model
  | newGraph home name => exact c.hasRoom_entity_iff calls _ rfl home name .graph []
  | newCollection home name => exact c.hasRoom_entity_iff calls _ rfl home name .document []
  | newTable home name columns =>
    exact c.hasRoom_entity_iff calls _ rfl home name .relational columns

theorem foundIn_addEntity (home : NamespaceId) (name : String) (model : Model)
    (columns : List Field) : c.FoundIn (c.addEntity home name model columns).2 :=
  ⟨fun _ _ h => h, fun _ _ h => find?_concat_of_some h _⟩

/-- Whatever a call adds, what was found is found still. -/
theorem foundIn_perform (a : Addition) : c.FoundIn (a.perform c) := by
  cases a with
  | newNamespace name model => exact ⟨fun _ _ h => find?_concat_of_some h _, fun _ _ h => h⟩
  | newGraph home name => exact c.foundIn_addEntity home name .graph []
  | newCollection home name => exact c.foundIn_addEntity home name .document []
  | newTable home name columns => exact c.foundIn_addEntity home name .relational columns

theorem foundIn_after : c.FoundIn (c.after calls) := by
  induction calls generalizing c with
  | nil => exact ⟨fun _ _ h => h, fun _ _ h => h⟩
  | cons a calls ih =>
    have hfirst := c.foundIn_perform a
    have hrest := ih (a.perform c)
    exact ⟨fun id n h => hrest.namespaces id n (hfirst.namespaces id n h),
      fun id e h => hrest.entities id e (hfirst.entities id e h)⟩

theorem after_append (later : List Addition) :
    c.after (calls ++ later) = (c.after calls).after later := List.foldl_append ..

theorem allGoWell_cons_iff (a : Addition) :
    c.AllGoWell (a :: calls) ↔ a.GoesWell c ∧ (a.perform c).AllGoWell calls := by
  constructor
  · intro h
    exact ⟨h 0 a rfl, fun i b hb => h (i + 1) b hb⟩
  · rintro ⟨hfirst, hrest⟩ i b hb
    cases i with
    | zero =>
      cases hb
      exact hfirst
    | succ i => exact hrest i b hb

/-- **All calls**, by what one call needs and leaves. -/
theorem allGoWell_iff_hasRoom : c.AllGoWell calls ↔ c.HasRoom calls := by
  induction calls generalizing c with
  | nil => exact iff_of_true (fun i a h => by cases h) c.hasRoom_nil
  | cons a calls ih => rw [allGoWell_cons_iff, ih, hasRoom_cons_iff]

/-- **Numbers of what is added.** Each of some calls returns a number that nothing has, under which
just what it adds is found, and changes no other lookup, exactly if the catalog has room for them.
In any case a later call takes nothing away from what is found. -/
theorem additions_go_well_iff :
    (c.AllGoWell calls ↔ c.HasRoom calls) ∧
      ∀ i, (c.after (calls.take i)).FoundIn (c.after calls) := by
  refine ⟨c.allGoWell_iff_hasRoom calls, fun i => ?_⟩
  have hcalls := c.after_append (calls.take i) (calls.drop i)
  rw [List.take_append_drop] at hcalls
  rw [hcalls]
  exact foundIn_after _ _

/-- A catalog whose only namespace is number one, and whose entities have the least and the greatest
number. -/
def oddlyNumbered : Catalog :=
  ⟨[⟨⟨1⟩, "docs", .document⟩],
    [⟨⟨0⟩, "first", ⟨1⟩, .document, []⟩, ⟨⟨18446744073709551615⟩, "last", ⟨1⟩, .document, []⟩]⟩

/-- Such a catalog may be read in. A new namespace gets the number of another one, and the lookup
finds that other one; so it goes with a new graph. -/
theorem oddlyNumbered_lacks_numbers :
    let (id, withPeople) := oddlyNumbered.addNamespace "people" .graph
    let (e, withFriends) := oddlyNumbered.addGraph ⟨1⟩ "friends"
    Catalog.ofJson? oddlyNumbered.toJson = some oddlyNumbered ∧
      withPeople.findNamespace? id = some ⟨id, "docs", .document⟩ ∧
      withFriends.entity? e.id = some ⟨e.id, "first", ⟨1⟩, .document, []⟩ ∧ e.name = "friends" := by
  decide

end Catalog

end QueryPlan
