import Mathlib.Algebra.Group.Nat.Defs
import Mathlib.Data.List.DropRight
import Mathlib.Data.List.Nodup
import QueryPlan.Interner

/-!
# Interning is first in, first out

The reference for an interner is a log of the plans that were not found when they came. It forgets
nothing until it is cleared, and of its plans the last ones, as many as the interner has room for,
can be found. An interner with room answers every call as the log does, and what it stores is the
end of the log. So a plan that is found does not become younger by it, and the one that has to go is
the one stored longest ago.

Plans are compared with their tags here: an answer that equals a stored plan is that very object.
-/

namespace QueryPlan

/-- What an interner can be asked to do. -/
inductive InternerCall
  | intern (p : Plan)
  | clear

namespace InternerCall

/-- The plan that is to be interned. -/
def plan? : InternerCall → Option Plan
  | intern p => some p
  | clear => none

def isIntern (call : InternerCall) : Bool := call.plan?.isSome

end InternerCall

/-- What an interner has seen since it was last cleared. -/
structure InternerLog where
  /-- The plans that were not found, the oldest first. -/
  missed : List Plan
  /-- How many plans were found. -/
  found : Nat

namespace InternerLog

def empty : InternerLog := ⟨[], 0⟩

/-- The plans that can be found: the last that were not. -/
def held (l : InternerLog) (capacity : Nat) : List Plan := l.missed.rtake capacity

/-- The plan that is found for a plan. -/
def find? (l : InternerLog) (capacity : Nat) (p : Plan) : Option Plan :=
  (l.held capacity).find? (·.fingerprint = p.fingerprint)

/-- The log with one more plan that was not found. -/
def add (l : InternerLog) (p : Plan) : InternerLog := { l with missed := l.missed ++ [p] }

/-- The answer to a call, and the log after it. -/
def serve (l : InternerLog) (capacity : Nat) : InternerCall → Option Plan × InternerLog
  | .intern p =>
    match l.find? capacity p with
    | some stored => (some stored, { l with found := l.found + 1 })
    | none => (some p, l.add p)
  | .clear => (none, empty)

/-- The log after calls, in order. -/
def after (l : InternerLog) (capacity : Nat) (calls : List InternerCall) : InternerLog :=
  calls.foldl (fun l call => (l.serve capacity call).2) l

/-- The answers to calls, in order. -/
def answers (l : InternerLog) (capacity : Nat) : List InternerCall → List (Option Plan)
  | [] => []
  | call :: calls => (l.serve capacity call).1 :: answers (l.serve capacity call).2 capacity calls

theorem after_append (l : InternerLog) (capacity : Nat) (calls : List InternerCall)
    (call : InternerCall) :
    l.after capacity (calls ++ [call]) = ((l.after capacity calls).serve capacity call).2 :=
  List.foldl_concat _ _ _ _

/-- In a log that grows by one plan, the oldest of those that could be found goes if there is no
more room. -/
theorem held_add {capacity : Nat} (hroom : 0 < capacity) (l : InternerLog) (p : Plan) :
    (l.add p).held capacity =
      (if capacity ≤ (l.held capacity).length then (l.held capacity).drop 1
        else l.held capacity) ++ [p] := by
  obtain ⟨n, rfl⟩ := Nat.exists_eq_add_one.mpr hroom
  change (l.missed ++ [p]).rtake (n + 1) = _
  rw [List.rtake_concat_succ]
  congr 1
  unfold held List.rtake
  rw [List.length_drop, List.drop_drop]
  split
  · congr 1
    omega
  · congr 1
    omega

theorem held_min (l : InternerLog) (capacity : Nat) :
    l.missed.rtake (min l.missed.length capacity) = l.held capacity := by
  unfold held List.rtake
  congr 1
  omega

theorem fingerprint_not_mem {l : InternerLog} {capacity : Nat} {p : Plan}
    (hp : l.find? capacity p = none) :
    p.fingerprint ∉ (l.held capacity).map Plan.fingerprint := by
  intro hmem
  obtain ⟨q, hq, hsame⟩ := List.mem_map.mp hmem
  have hnot := List.find?_eq_none.mp hp q hq
  simp [hsame] at hnot

/-- A log counts the calls to intern a plan since it was last cleared. -/
theorem count_after (capacity : Nat) (calls : List InternerCall) :
    (empty.after capacity calls).found + (empty.after capacity calls).missed.length =
      (calls.rtakeWhile InternerCall.isIntern).length := by
  induction calls using List.reverseRecOn with
  | nil => rfl
  | append_singleton calls call ih =>
      rw [after_append, List.rtakeWhile_concat]
      cases call with
      | clear => rfl
      | intern p =>
          rw [if_pos (show InternerCall.isIntern (.intern p) = true from rfl), List.length_append,
            ← ih]
          dsimp only [serve]
          split
          · exact Nat.add_right_comm _ _ _
          · rw [add, List.length_append]
            exact (Nat.add_assoc _ _ _).symm

end InternerLog

namespace Interner

/-- The answer to a call, and the interner after it. -/
def serve (i : Interner) : InternerCall → Option Plan × Interner
  | .intern p => (some (i.intern p).1, (i.intern p).2)
  | .clear => (none, i.clear)

/-- The interner after calls, in order. -/
def after (i : Interner) (calls : List InternerCall) : Interner :=
  calls.foldl (fun i call => (i.serve call).2) i

/-- The answers to calls, in order. -/
def answers (i : Interner) : List InternerCall → List (Option Plan)
  | [] => []
  | call :: calls => (i.serve call).1 :: answers (i.serve call).2 calls

/-! ## One call -/

variable {i : Interner} {l : InternerLog} {p : Plan} {capacity : Nat}

theorem intern_of_found {stored : Plan} (hroom : 0 < i.capacity)
    (h : i.get? p.fingerprint = some stored) :
    i.intern p = (stored, { i with hits := i.hits + 1 }) := by
  unfold intern
  rw [if_neg hroom.ne', h]

theorem intern_of_missed (hroom : 0 < i.capacity) (h : i.get? p.fingerprint = none) :
    i.intern p =
      (p, { i with plans := i.evict ++ [(p.fingerprint, p)], misses := i.misses + 1 }) := by
  unfold intern
  rw [if_neg hroom.ne', h]

/-- The interner stores the end of the log, and counts what the log counts. -/
structure Follows (i : Interner) (capacity : Nat) (l : InternerLog) : Prop where
  capacity_eq : i.capacity = capacity
  plans_eq : i.plans = (l.held capacity).map fun p => (p.fingerprint, p)
  distinct : ((l.held capacity).map Plan.fingerprint).Nodup
  hits_eq : i.hits = l.found
  misses_eq : i.misses = l.missed.length

theorem follows_empty (capacity : Nat) : (empty capacity).Follows capacity .empty where
  capacity_eq := rfl
  plans_eq := by simp [empty, InternerLog.held, InternerLog.empty]
  distinct := by simp [InternerLog.held, InternerLog.empty]
  hits_eq := rfl
  misses_eq := rfl

namespace Follows

/-- A plan is found in the interner exactly if it is found in the log. -/
theorem get?_eq (h : i.Follows capacity l) (p : Plan) :
    i.get? p.fingerprint = l.find? capacity p := by
  unfold get? InternerLog.find?
  rw [h.plans_eq, List.find?_map, Option.map_map]
  exact congrFun Option.map_id _

/-- What is stored under a fingerprint is what is found for it. -/
theorem get?_of_mem (h : i.Follows capacity l) {fingerprint : String} {stored : Plan}
    (hmem : (fingerprint, stored) ∈ i.plans) : i.get? fingerprint = some stored := by
  rw [h.plans_eq] at hmem
  obtain ⟨q, hq, heq⟩ := List.mem_map.mp hmem
  cases heq
  rw [h.get?_eq stored]
  cases hfind : l.find? capacity stored with
  | none =>
      have hnot := List.find?_eq_none.mp hfind stored hq
      simp at hnot
  | some r =>
      have hr : r ∈ l.held capacity := List.mem_of_find?_eq_some hfind
      have hsame : r.fingerprint = stored.fingerprint := by simpa using List.find?_some hfind
      rw [List.inj_on_of_nodup_map h.distinct hr hq hsame]

theorem keys_eq (h : i.Follows capacity l) :
    i.plans.map Prod.fst = (l.held capacity).map Plan.fingerprint := by
  rw [h.plans_eq, List.map_map]
  rfl

theorem stored_eq (h : i.Follows capacity l) : i.plans.map Prod.snd = l.held capacity := by
  rw [h.plans_eq, List.map_map]
  exact List.map_id _

theorem get?_of_not_mem (h : i.Follows capacity l)
    (hp : p.fingerprint ∉ i.plans.map Prod.fst) : i.get? p.fingerprint = none := by
  rw [h.keys_eq] at hp
  rw [h.get?_eq p]
  refine List.find?_eq_none.mpr fun q hq hsame => hp ?_
  exact List.mem_map.mpr ⟨q, hq, by simpa using hsame⟩

/-- Making room and storing a plan is adding it to the log. -/
theorem evict_append (h : i.Follows capacity l) (hroom : 0 < capacity) (p : Plan) :
    i.evict ++ [(p.fingerprint, p)] =
      ((l.add p).held capacity).map fun p => (p.fingerprint, p) := by
  unfold evict
  rw [h.capacity_eq, h.plans_eq, List.length_map, InternerLog.held_add hroom, List.map_append]
  split
  · rw [List.map_drop, List.map_singleton]
  · rw [List.map_singleton]

theorem distinct_append (h : i.Follows capacity l) (hroom : 0 < capacity)
    (hp : l.find? capacity p = none) :
    (((l.add p).held capacity).map Plan.fingerprint).Nodup := by
  have hall : ((l.held capacity ++ [p]).map Plan.fingerprint).Nodup := by
    rw [List.map_append, List.map_singleton, ← List.concat_eq_append]
    exact h.distinct.concat (InternerLog.fingerprint_not_mem hp)
  refine hall.sublist (List.Sublist.map _ ?_)
  rw [InternerLog.held_add hroom]
  refine List.Sublist.append ?_ (List.Sublist.refl _)
  split
  · exact List.drop_sublist _ _
  · exact List.Sublist.refl _

/-- A plan whose fingerprint is stored is a hit, and the log does not grow by it. -/
theorem intern_of_mem (h : i.Follows capacity l) (hroom : 0 < capacity) {stored : Plan}
    (hmem : (p.fingerprint, stored) ∈ i.plans) :
    i.intern p = (stored, { i with hits := i.hits + 1 }) ∧
      (l.serve capacity (.intern p)).2.missed = l.missed := by
  have hget := h.get?_of_mem hmem
  refine ⟨intern_of_found (h.capacity_eq ▸ hroom) hget, ?_⟩
  rw [h.get?_eq p] at hget
  simp only [InternerLog.serve, hget]

/-- Any other plan is a miss, and the last of the log. -/
theorem intern_of_not_mem (h : i.Follows capacity l) (hroom : 0 < capacity)
    (hp : p.fingerprint ∉ i.plans.map Prod.fst) :
    (i.intern p).1 = p ∧ (i.intern p).2.hits = i.hits ∧
      (i.intern p).2.misses = i.misses + 1 ∧
      (l.serve capacity (.intern p)).2.missed = l.missed ++ [p] := by
  have hget := h.get?_of_not_mem hp
  rw [intern_of_missed (h.capacity_eq ▸ hroom) hget]
  refine ⟨rfl, rfl, rfl, ?_⟩
  rw [h.get?_eq p] at hget
  simp only [InternerLog.serve, hget, InternerLog.add]

theorem count_eq (h : i.Follows capacity l) : i.hits + i.misses = l.found + l.missed.length := by
  rw [h.hits_eq, h.misses_eq]

/-- **One call.** An interner with room answers as the log does, and follows it afterwards. -/
theorem serve (h : i.Follows capacity l) (hroom : 0 < capacity) (call : InternerCall) :
    (i.serve call).1 = (l.serve capacity call).1 ∧
      (i.serve call).2.Follows capacity (l.serve capacity call).2 := by
  have hroom' : 0 < i.capacity := h.capacity_eq ▸ hroom
  cases call with
  | clear => exact ⟨rfl, h.capacity_eq ▸ follows_empty i.capacity⟩
  | intern p =>
      dsimp only [Interner.serve, InternerLog.serve]
      cases hp : l.find? capacity p with
      | some stored =>
          rw [intern_of_found hroom' ((h.get?_eq p).trans hp)]
          exact ⟨rfl, h.capacity_eq, h.plans_eq, h.distinct, congrArg (· + 1) h.hits_eq,
            h.misses_eq⟩
      | none =>
          rw [intern_of_missed hroom' ((h.get?_eq p).trans hp)]
          refine ⟨rfl, h.capacity_eq, h.evict_append hroom p, h.distinct_append hroom hp,
            h.hits_eq, ?_⟩
          rw [InternerLog.add, List.length_append, List.length_singleton, ← h.misses_eq]

/-! ## Calls in order -/

/-- **A run of calls.** -/
theorem after (h : i.Follows capacity l) (hroom : 0 < capacity) (calls : List InternerCall) :
    (i.after calls).Follows capacity (l.after capacity calls) := by
  induction calls generalizing i l with
  | nil => exact h
  | cons call calls ih => exact ih (h.serve hroom call).2

theorem answers (h : i.Follows capacity l) (hroom : 0 < capacity) (calls : List InternerCall) :
    i.answers calls = l.answers capacity calls := by
  induction calls generalizing i l with
  | nil => rfl
  | cons call calls ih =>
      obtain ⟨hanswer, hnext⟩ := h.serve hroom call
      rw [Interner.answers, InternerLog.answers, hanswer, ih hnext]

end Follows

/-- An interner without room gives back what it is given, and stays as it is. -/
theorem serve_of_no_room (call : InternerCall) :
    (empty 0).serve call = (call.plan?, empty 0) := by
  cases call with
  | intern p => rfl
  | clear => rfl

theorem after_of_no_room (calls : List InternerCall) : (empty 0).after calls = empty 0 := by
  induction calls with
  | nil => rfl
  | cons call calls ih =>
      change ((empty 0).serve call).2.after calls = empty 0
      rw [serve_of_no_room]
      exact ih

theorem answers_of_no_room (calls : List InternerCall) :
    (empty 0).answers calls = calls.map InternerCall.plan? := by
  induction calls with
  | nil => rfl
  | cons call calls ih => rw [answers, serve_of_no_room, ih, List.map_cons]

/-- No call is counted twice. -/
theorem count_le_length (capacity : Nat) (calls : List InternerCall) :
    ((empty capacity).after calls).hits + ((empty capacity).after calls).misses ≤
      calls.length := by
  rcases Nat.eq_zero_or_pos capacity with rfl | hroom
  · rw [after_of_no_room]
    exact Nat.zero_le _
  · rw [((follows_empty capacity).after hroom calls).count_eq, InternerLog.count_after]
    exact (List.rtakeWhile_suffix _ _).length_le

/-- **An interner is a first-in-first-out store.** With room it answers every call as its log does.
The keys it holds are the fingerprints of its plans, all different, and its plans are the last that
were missed since it was cleared. A plan whose fingerprint is stored is a hit and comes back as the
stored object; any other is a miss and comes back itself. Together hits and misses count the calls
to intern since the last one to clear, so words of 64 bits hold them for fewer than 2 ^ 64 calls.
Without room every plan comes back itself and nothing is counted. -/
theorem interner_is_fifo (capacity : Nat) (calls : List InternerCall) :
    let i := (empty capacity).after calls
    let l := InternerLog.empty.after capacity calls
    (0 < capacity →
      (empty capacity).answers calls = InternerLog.empty.answers capacity calls ∧
      (i.plans.map Prod.fst).Nodup ∧
      (∀ entry ∈ i.plans, entry.1 = entry.2.fingerprint) ∧
      i.plans.map Prod.snd = l.missed.rtake (min i.misses capacity) ∧
      i.misses = l.missed.length ∧
      (∀ p stored, (p.fingerprint, stored) ∈ i.plans →
        i.intern p = (stored, { i with hits := i.hits + 1 }) ∧
        (l.serve capacity (.intern p)).2.missed = l.missed) ∧
      (∀ p, p.fingerprint ∉ i.plans.map Prod.fst →
        (i.intern p).1 = p ∧ (i.intern p).2.hits = i.hits ∧
        (i.intern p).2.misses = i.misses + 1 ∧
        (l.serve capacity (.intern p)).2.missed = l.missed ++ [p]) ∧
      i.hits + i.misses = (calls.rtakeWhile InternerCall.isIntern).length) ∧
    (capacity = 0 →
      (empty capacity).answers calls = calls.map InternerCall.plan? ∧ i.stats = ⟨0, 0, 0⟩) ∧
    (calls.length < 2 ^ 64 → i.hits + i.misses < 2 ^ 64) := by
  intro i l
  refine ⟨?_, ?_, ?_⟩
  · intro hroom
    have h : i.Follows capacity l := (follows_empty capacity).after hroom calls
    refine ⟨(follows_empty capacity).answers hroom calls, ?_, ?_, ?_, h.misses_eq, ?_, ?_, ?_⟩
    · rw [h.keys_eq]
      exact h.distinct
    · rw [h.plans_eq]
      exact List.forall_mem_map.mpr fun q _ => rfl
    · rw [h.stored_eq, h.misses_eq, InternerLog.held_min]
    · exact fun p stored hmem => h.intern_of_mem hroom hmem
    · exact fun p hp => h.intern_of_not_mem hroom hp
    · exact h.count_eq.trans (InternerLog.count_after capacity calls)
  · rintro rfl
    refine ⟨answers_of_no_room calls, ?_⟩
    change stats ((empty 0).after calls) = _
    rw [after_of_no_room]
    rfl
  · exact Nat.lt_of_le_of_lt (count_le_length capacity calls)

/-- A full scan of the graph numbered `n`, as the object `tag`. -/
def taggedScan (tag : Nat) (n : UInt64) : Plan :=
  ⟨some tag, .scan ⟨⟨n⟩, "g", ⟨0⟩, .graph, []⟩, [], .single "graph" .graph, .graph⟩

/-- Three graphs are scanned, the first of them twice. -/
def repeatedScans : List InternerCall :=
  [.clear, .intern (taggedScan 0 1), .intern (taggedScan 1 2), .intern (taggedScan 2 1),
    .intern (taggedScan 3 3)]

/-- With room for two, the third plan takes the place of the first, though that was found again
before. -/
theorem repeated_scan_is_evicted :
    0 < 2 ∧
      ((empty 2).after repeatedScans).plans.map Prod.snd = [taggedScan 1 2, taggedScan 3 3] ∧
      ((empty 2).after repeatedScans).hits + ((empty 2).after repeatedScans).misses = 4 := by
  obtain ⟨-, -, -, hstored, hmisses, -, -, hcount⟩ :=
    (interner_is_fifo 2 repeatedScans).1 (by decide)
  refine ⟨by decide, ?_, hcount⟩
  have hlog : (InternerLog.empty.after 2 repeatedScans).missed =
      [taggedScan 0 1, taggedScan 1 2, taggedScan 3 3] := by
    rfl
  rw [hstored, hmisses, hlog]
  rfl

end Interner

end QueryPlan
