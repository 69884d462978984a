import QueryPlan.Proofs.Compiler.Outcome

/-!
# When interning shows

Interning is transparent if a compiler answers every request as one does that keeps no plans, apart
from which plans are one and the same object. An interner knows plans by their fingerprints only. So
it is transparent exactly if the fingerprints tell the delivered plans apart, or if it has no room.

Not all plans are told apart: names stand in a fingerprint as they are, so a name can look like the
text around it. Where the names are plain, all are (`Compiler.tellsApart_isPlain`).
-/

namespace QueryPlan

namespace Plan

mutual

/-- The plan without tags. -/
def bare : Plan → Plan
  | ⟨_, op, inputs, schema, model⟩ => ⟨none, op, bareAll inputs, schema, model⟩

def bareAll : List Plan → List Plan
  | [] => []
  | p :: ps => p.bare :: bareAll ps

end

@[simp] theorem bare_tagWith (n : Nat) (p : Plan) : (p.tagWith n).bare = p.bare := by
  obtain ⟨tag, op, inputs, schema, model⟩ := p
  rw [tagWith, bare, bare]

@[simp] theorem fingerprint_tagWith (n : Nat) (p : Plan) :
    (p.tagWith n).fingerprint = p.fingerprint := by
  obtain ⟨tag, op, inputs, schema, model⟩ := p
  rw [tagWith, fingerprint_untag, fingerprint_untag tag]

end Plan

/-! ## Requests -/

/-- What a compiler can be asked to do. -/
inductive Request
  | compile (q : Query)
  | finish (root : Plan) (kind : QueryKind)
  | clear

/-- The plan that a request comes to before it is interned, and its kind; none if the request is to
forget. -/
def Request.delivery (catalog : Catalog) (settings : Settings) :
    Request → Option (Except Error (Plan × QueryKind))
  | .compile q => some (do
    let (root, kind) ← q.toPlan catalog settings.home settings.allowSubstitution
    let p ← Compiler.deliver settings root kind
    return (p, kind))
  | .finish root kind => some (do
    let p ← Compiler.deliver settings root kind
    return (p, kind))
  | .clear => none

/-- The request delivers the plan. -/
def Request.Delivers (catalog : Catalog) (settings : Settings) (r : Request) (p : Plan) : Prop :=
  ∃ kind, r.delivery catalog settings = some (.ok (p, kind))

namespace Compiler

/-- Serves a request; a request to forget has no answer. -/
def serve (c : Compiler) : Request → Option (Except Error Compiled) × Compiler
  | .compile q => (some (c.compile q).1, (c.compile q).2)
  | .finish root kind => (some (c.finish root kind).1, (c.finish root kind).2)
  | .clear => (none, c.clear)

/-- The answers to requests, served in order. -/
def answers (c : Compiler) : List Request → List (Option (Except Error Compiled))
  | [] => []
  | r :: rs => (c.serve r).1 :: answers (c.serve r).2 rs

/-- What an answer says: an error, or a plan and its kind, whatever object the plan is. -/
def content (answer : Option (Except Error Compiled)) : Option (Except Error (Plan × QueryKind)) :=
  answer.map fun r => r.map fun compiled => (compiled.root.bare, compiled.kind)

/-- A new compiler, asked these requests in order, answers each as a new compiler does that keeps no
plans. -/
def Transparent (catalog : Catalog) (settings : Settings) (rs : List Request) : Prop :=
  ((new catalog settings).answers rs).map content =
    rs.map fun r => content ((new catalog (settings.withCacheCapacity 0)).serve r).1

/-! ## Interners -/

end Compiler

namespace Interner

variable {i : Interner} {p : Plan} {kept : Plan → Prop}

/-- Every plan that is kept is one of some plans, up to tags, and stands under its fingerprint. -/
def KeepsOnly (i : Interner) (kept : Plan → Prop) : Prop :=
  ∀ entry ∈ i.plans, ∃ p, kept p ∧ entry.1 = p.fingerprint ∧ entry.2.bare = p.bare

theorem keepsOnly_empty (capacity : Nat) : (empty capacity).KeepsOnly kept :=
  List.forall_mem_nil _

theorem mem_of_get? {fingerprint : String} (h : i.get? fingerprint = some p) :
    (fingerprint, p) ∈ i.plans := by
  obtain ⟨⟨key, q⟩, hfind, rfl⟩ := Option.map_eq_some_iff.mp h
  have hkey : key = fingerprint := by simpa using List.find?_some hfind
  subst hkey
  exact List.mem_of_find?_eq_some hfind

theorem evict_subset (i : Interner) : i.evict ⊆ i.plans := by
  unfold evict
  split
  · exact List.drop_subset 1 i.plans
  · exact List.Subset.refl _

theorem capacity_intern (i : Interner) (p : Plan) : (i.intern p).2.capacity = i.capacity := by
  unfold intern
  split
  · rfl
  · split <;> rfl

/-- An interner answers with what it is given or with what it keeps under that fingerprint. -/
theorem intern_eq_or_mem (i : Interner) (p : Plan) :
    (i.intern p).1 = p ∨ (p.fingerprint, (i.intern p).1) ∈ i.plans := by
  unfold intern
  split
  · exact Or.inl rfl
  · split
    · next stored hstored => exact Or.inr (mem_of_get? hstored)
    · exact Or.inl rfl

/-- An interner comes to keep nothing but what it is given. -/
theorem mem_plans_intern {entry : String × Plan}
    (h : entry ∈ (i.intern p).2.plans) : entry ∈ i.plans ∨ entry = (p.fingerprint, p) := by
  unfold intern at h
  split at h
  · exact Or.inl h
  · split at h
    · exact Or.inl h
    · rcases List.mem_append.mp h with hold | hnew
      · exact Or.inl (i.evict_subset hold)
      · exact Or.inr (List.mem_singleton.mp hnew)

theorem KeepsOnly.intern (h : i.KeepsOnly kept) (hp : kept p) (n : Nat) :
    (i.intern (p.tagWith n)).2.KeepsOnly kept := by
  intro entry hentry
  rcases mem_plans_intern hentry with hold | rfl
  · exact h entry hold
  · exact ⟨p, hp, Plan.fingerprint_tagWith n p, Plan.bare_tagWith n p⟩

/-- Where fingerprints tell the kept plans apart, a plan comes back as it went in. -/
theorem KeepsOnly.bare_intern (h : i.KeepsOnly kept) (hp : kept p) (n : Nat)
    (happart : i.capacity = 0 ∨
      ∀ p q, kept p → kept q → p.fingerprint = q.fingerprint → p.bare = q.bare) :
    (i.intern (p.tagWith n)).1.bare = p.bare := by
  unfold Interner.intern
  split
  · exact Plan.bare_tagWith n p
  · next hroom =>
      split
      · next stored hstored =>
          obtain ⟨q, hq, hkey, hbare⟩ := h _ (mem_of_get? hstored)
          have hsame : p.fingerprint = q.fingerprint := by
            rw [← Plan.fingerprint_tagWith n p]
            exact hkey
          rcases happart with hnone | happart
          · exact absurd hnone hroom
          · rw [hbare]
            exact (happart p q hp hq hsame).symm
      · exact Plan.bare_tagWith n p

/-- With room, a plan that follows another one with its fingerprint is replaced by it. -/
theorem intern_intern {capacity : Nat} (hroom : capacity ≠ 0) {p q : Plan}
    (h : p.fingerprint = q.fingerprint) : ((empty capacity).intern p).2.intern q =
      (p, ⟨capacity, [(p.fingerprint, p)], 1, 1⟩) := by
  have hfirst : ((empty capacity).intern p).2 = ⟨capacity, [(p.fingerprint, p)], 0, 1⟩ := by
    simp [intern, empty, hroom, get?, evict]
  rw [hfirst]
  simp [intern, hroom, get?, h]

end Interner

/-! ## Serving requests -/

namespace Compiler

/-- Serves what a request comes to. -/
def settle (c : Compiler) :
    Option (Except Error (Plan × QueryKind)) → Option (Except Error Compiled) × Compiler
  | none => (none, c.clear)
  | some (.error e) => (some (.error e), c)
  | some (.ok (p, kind)) =>
    let (root, interner) := c.interner.intern (p.tagWith c.nextTag)
    (some (.ok ⟨root, kind⟩), { c with interner, nextTag := c.nextTag + 1 })

theorem serve_finish (c : Compiler) (root : Plan) (kind : QueryKind) :
    c.serve (.finish root kind) =
      c.settle (Request.delivery c.catalog c.settings (.finish root kind)) := by
  dsimp only [serve, Request.delivery, finish]
  cases deliver c.settings root kind <;> rfl

theorem serve_eq (c : Compiler) (r : Request) :
    c.serve r = c.settle (r.delivery c.catalog c.settings) := by
  cases r with
  | clear => rfl
  | finish root kind => exact c.serve_finish root kind
  | compile q =>
      cases hplan : q.toPlan c.catalog c.settings.home c.settings.allowSubstitution with
      | error e =>
          rw [serve, compile_of_error hplan, Request.delivery, hplan]
          rfl
      | ok r =>
          obtain ⟨root, kind⟩ := r
          have hdelivery : Request.delivery c.catalog c.settings (.compile q) =
              Request.delivery c.catalog c.settings (.finish root kind) := by
            rw [Request.delivery, hplan]
            rfl
          rw [serve, compile_of_ok hplan, hdelivery]
          exact c.serve_finish root kind

/-- The content of what a request comes to. -/
def plain (catalog : Catalog) (settings : Settings) (r : Request) :
    Option (Except Error (Plan × QueryKind)) :=
  (r.delivery catalog settings).map fun d => d.map fun (p, kind) => (p.bare, kind)

/-- A compiler for a catalog and settings that keeps only what some requests deliver. -/
structure Serving (catalog : Catalog) (settings : Settings) (allowed : Request → Prop)
    (c : Compiler) : Prop where
  catalog_eq : c.catalog = catalog
  settings_eq : c.settings = settings
  capacity_eq : c.interner.capacity = settings.cacheCapacity
  keeps : c.interner.KeepsOnly fun p => ∃ r, allowed r ∧ r.Delivers catalog settings p

variable {catalog : Catalog} {settings : Settings} {allowed : Request → Prop} {c : Compiler}
  {r : Request}

theorem serving_new : Serving catalog settings allowed (new catalog settings) :=
  ⟨rfl, rfl, rfl, Interner.keepsOnly_empty _⟩

/-- **One request**, served by such a compiler, leaves such a compiler. -/
theorem Serving.serve (h : Serving catalog settings allowed c) (hr : allowed r) :
    Serving catalog settings allowed (c.serve r).2 := by
  rw [serve_eq, h.catalog_eq, h.settings_eq]
  cases hdelivery : r.delivery catalog settings with
  | none => exact ⟨h.catalog_eq, h.settings_eq, h.capacity_eq, Interner.keepsOnly_empty _⟩
  | some d =>
      cases d with
      | error e => exact h
      | ok d =>
          obtain ⟨p, kind⟩ := d
          refine ⟨h.catalog_eq, h.settings_eq, ?_, ?_⟩
          · exact (Interner.capacity_intern _ _).trans h.capacity_eq
          · exact h.keeps.intern ⟨r, hr, kind, hdelivery⟩ _

/-- Fingerprints tell apart the plans that some requests deliver. -/
def TellsApart (catalog : Catalog) (settings : Settings) (allowed : Request → Prop) : Prop :=
  ∀ r s p q, allowed r → allowed s → r.Delivers catalog settings p →
    s.Delivers catalog settings q → p.fingerprint = q.fingerprint → p.bare = q.bare

theorem Serving.content_serve (h : Serving catalog settings allowed c) (hr : allowed r)
    (happart : settings.cacheCapacity = 0 ∨ TellsApart catalog settings allowed) :
    content (c.serve r).1 = plain catalog settings r := by
  rw [serve_eq, h.catalog_eq, h.settings_eq, plain]
  cases hdelivery : r.delivery catalog settings with
  | none => rfl
  | some d =>
      cases d with
      | error e => rfl
      | ok d =>
          obtain ⟨p, kind⟩ := d
          have hbare : (c.interner.intern (p.tagWith c.nextTag)).1.bare = p.bare := by
            refine h.keeps.bare_intern ⟨r, hr, kind, hdelivery⟩ _ ?_
            rw [h.capacity_eq]
            refine happart.imp_right fun happart p q hp hq hsame => ?_
            obtain ⟨r, hr, hp⟩ := hp
            obtain ⟨s, hs, hq⟩ := hq
            exact happart r s p q hr hs hp hq hsame
          change some (Except.ok ((c.interner.intern (p.tagWith c.nextTag)).1.bare, kind)) =
            some (.ok (p.bare, kind))
          rw [hbare]

/-- **A run of requests.** -/
theorem Serving.content_answers {rs : List Request} (h : Serving catalog settings allowed c)
    (hrs : ∀ r ∈ rs, allowed r)
    (happart : settings.cacheCapacity = 0 ∨ TellsApart catalog settings allowed) :
    (c.answers rs).map content = rs.map (plain catalog settings) := by
  induction rs generalizing c with
  | nil => rfl
  | cons r rs ih =>
      obtain ⟨hr, hrs⟩ := List.forall_mem_cons.mp hrs
      rw [answers, List.map_cons, List.map_cons, h.content_serve hr happart, ih (h.serve hr) hrs]

/-- A compiler that keeps no plans answers plainly. -/
theorem content_serve_new (catalog : Catalog) (settings : Settings) (r : Request) :
    content ((new catalog (settings.withCacheCapacity 0)).serve r).1 =
      plain catalog settings r := by
  have hserving : Serving catalog (settings.withCacheCapacity 0) (fun _ => True)
      (new catalog (settings.withCacheCapacity 0)) := serving_new
  exact hserving.content_serve trivial (Or.inl rfl)

theorem transparent_iff_plain {rs : List Request} : Transparent catalog settings rs ↔
    ((new catalog settings).answers rs).map content = rs.map (plain catalog settings) := by
  unfold Transparent
  rw [List.map_congr_left fun r _ => content_serve_new catalog settings r]

/-- Of two requests in a row the second is answered with the plan of the first, if that has the same
fingerprint. -/
theorem bare_eq_of_transparent {s : Request} {p q : Plan}
    (hroom : settings.cacheCapacity ≠ 0) (hr : r.Delivers catalog settings p)
    (hs : s.Delivers catalog settings q) (hsame : p.fingerprint = q.fingerprint)
    (h : Transparent catalog settings [r, s]) : p.bare = q.bare := by
  obtain ⟨kr, hr⟩ := hr
  obtain ⟨ks, hs⟩ := hs
  have hfirst : ((new catalog settings).serve r).2 =
      ⟨catalog, settings, ((Interner.empty settings.cacheCapacity).intern (p.tagWith 0)).2, 1⟩ := by
    rw [serve_eq]
    change (settle _ (r.delivery catalog settings)).2 = _
    rw [hr]
    rfl
  have hsecond : content ((((new catalog settings).serve r).2).serve s).1 =
      some (.ok (p.bare, ks)) := by
    have htags : (p.tagWith 0).fingerprint = (q.tagWith 1).fingerprint := by simp [hsame]
    rw [hfirst, serve_eq]
    change content (settle _ (s.delivery catalog settings)).1 = _
    rw [hs]
    change some (Except.ok
      ((((Interner.empty settings.cacheCapacity).intern (p.tagWith 0)).2.intern
        (q.tagWith 1)).1.bare, ks)) = _
    rw [Interner.intern_intern hroom htags, Plan.bare_tagWith]
  have hplain : plain catalog settings s = some (.ok (q.bare, ks)) := by
    rw [plain, hs]
    rfl
  have hanswers := transparent_iff_plain.mp h
  simp only [answers, List.map_cons, List.map_nil, List.cons.injEq, hsecond, hplain] at hanswers
  simpa using hanswers.2

/-- **Interning is transparent exactly if fingerprints tell plans apart.** Whichever requests are
allowed, a compiler answers every sequence of them as if it kept no plans if and only if it has no
room for plans, or any two plans with one fingerprint that such requests deliver have the same
operators, schemas and models throughout. -/
theorem transparent_iff_fingerprints_tell_apart (catalog : Catalog) (settings : Settings)
    (allowed : Request → Prop) :
    (∀ rs : List Request, (∀ r ∈ rs, allowed r) → Transparent catalog settings rs) ↔
      settings.cacheCapacity = 0 ∨ TellsApart catalog settings allowed := by
  refine ⟨?_, ?_⟩
  · intro h
    by_cases hroom : settings.cacheCapacity = 0
    · exact Or.inl hroom
    · refine Or.inr fun r s p q hr hs hp hq hsame => ?_
      have hboth : ∀ t ∈ [r, s], allowed t :=
        List.forall_mem_cons.mpr ⟨hr, List.forall_mem_singleton.mpr hs⟩
      exact bare_eq_of_transparent hroom hp hq hsame (h [r, s] hboth)
  · intro happart rs hrs
    exact transparent_iff_plain.mpr (serving_new.content_answers hrs happart)

/-! ## Names that show -/

/-- `RETURN count(*) AS …` with a count under each name. -/
def countsAs (names : List String) : Query :=
  .single ⟨[.returning ⟨⟨false, false, names.map fun name => ⟨.countStar, some name, none⟩,
    [], none, none⟩, none⟩], none⟩

/-- The number of fields that an answer has. -/
def width? (answer : Option (Except Error (Plan × QueryKind))) : Option Nat :=
  match answer with
  | some (.ok (p, _)) => some p.schema.length
  | _ => none

/-- **Interning shows.** A count under a name that reads like two counts is answered with the plan
of the two counts, which has a field more. -/
theorem counts_taken_for_one_another :
    ¬ Transparent .withDefaultGraph .default
      [.compile (countsAs ["a", "b"]), .compile (countsAs ["a, COUNT(*) AS b"])] := by
  intro h
  have hwidths := congrArg (List.map width?) h
  exact absurd hwidths (by decide +kernel)

end Compiler

end QueryPlan
