import Mathlib.Data.List.Nodup
import QueryPlan.Value.Text

/-!
# Texts that can be read off

A text is written for a thing in front of other text. `Text.Shows` says that what was written can be
told from what is there: two things that begin the same text agree in what the text is to show, and
the same text is left after both. The statement passes from the parts of a text to the whole, so one
lemma for each kind of thing suffices.

A plain name has no mark in it. Wherever a plain name is written a mark comes next, so it is known
where the name ends. A quoted text ends with a quote that has no backslash before it.
-/

namespace QueryPlan.Text

variable {α β γ : Type}

/-! ## What comes next -/

/-- There is a next character, one of the given kind. -/
def Follows (kind : Char → Bool) (s : List Char) : Prop := s.head?.any kind = true

@[simp] theorem follows_cons {kind : Char → Bool} {c : Char} {s : List Char} :
    Follows kind (c :: s) ↔ kind c = true := Iff.rfl

theorem Follows.exists_cons {kind : Char → Bool} {s : List Char} (h : Follows kind s) :
    ∃ c u, s = c :: u ∧ kind c = true := by
  cases s with
  | nil => cases h
  | cons c u => exact ⟨c, u, rfl, h⟩

theorem Follows.mono {kind kind' : Char → Bool} {s : List Char}
    (hsub : ∀ c, kind c = true → kind' c = true) (h : Follows kind s) : Follows kind' s := by
  cases s with
  | nil => cases h
  | cons c s => exact hsub c h

theorem Follows.of_mark {kind : Char → Bool} {mark : Char} {s : List Char}
    (h : Follows (· == mark) s) (hmark : kind mark = true) : Follows kind s := by
  refine h.mono fun c hc => ?_
  rw [eq_of_beq hc]
  exact hmark

theorem Follows.not_both {kind : Char → Bool} {s : List Char} (h : Follows kind s)
    (h' : Follows (!kind ·) s) : False := by
  cases s with
  | nil => cases h
  | cons c s =>
      rw [follows_cons] at h h'
      rw [h] at h'
      cases h'

theorem Follows.append {kind : Char → Bool} {x : List Char} (h : Follows kind x) (s : List Char) :
    Follows kind (x ++ s) := by
  cases x with
  | nil => cases h
  | cons c x => exact h

/-- Characters of one kind in front of a character of another are told from what follows. -/
theorem append_inj_of_kind {kind : Char → Bool} {v w s t : List Char}
    (hv : ∀ c ∈ v, kind c = true) (hw : ∀ c ∈ w, kind c = true) (hs : Follows (!kind ·) s)
    (ht : Follows (!kind ·) t) (h : v ++ s = w ++ t) : v = w ∧ s = t := by
  induction v generalizing w with
  | nil =>
      cases w with
      | nil => exact ⟨rfl, h⟩
      | cons d w =>
          rw [List.nil_append, List.cons_append] at h
          rw [h, follows_cons, hw d List.mem_cons_self] at hs
          cases hs
  | cons c v ih =>
      cases w with
      | nil =>
          rw [List.nil_append, List.cons_append] at h
          rw [← h, follows_cons, hv c List.mem_cons_self] at ht
          cases ht
      | cons d w =>
          obtain ⟨hfirst, hrest⟩ := List.cons.inj h
          have hv' := (List.forall_mem_cons.mp hv).2
          have hw' := (List.forall_mem_cons.mp hw).2
          obtain ⟨hvw, hst⟩ := ih hv' hw' hrest
          exact ⟨by rw [hfirst, hvw], hst⟩

/-! ## Things shown by their texts -/

/-- The text `f a`, in front of what `K` allows, shows `r a`: whatever satisfies `P` and begins the
same text is like `a` in this respect, and leaves the same. -/
def Shows (f : α → String) (r : α → β) (P : α → Prop) (K : List Char → Prop) (a : α) : Prop :=
  ∀ b s t, P b → K s → K t → (f a).toList ++ s = (f b).toList ++ t → r a = r b ∧ s = t

section

variable {f : α → String} {r : α → β} {P : α → Prop} {K : List Char → Prop} {a : α}

theorem Shows.read (h : Shows f r P K a) {b : α} {s t : List Char}
    (heq : (f a).toList ++ s = (f b).toList ++ t) (hb : P b) (hs : K s) (ht : K t) :
    r a = r b ∧ s = t :=
  h b s t hb hs ht heq

theorem Shows.mono {r' : α → γ} {K' : List Char → Prop} (h : Shows f r P K a)
    (hr : ∀ b, r a = r b → r' a = r' b) (hK : ∀ s, K' s → K s) : Shows f r' P K' a := by
  intro b s t hb hs ht heq
  obtain ⟨hsame, hrest⟩ := h b s t hb (hK s hs) (hK t ht) heq
  exact ⟨hr b hsame, hrest⟩

/-- The same text after a fixed one shows as much. -/
theorem Shows.behind (h : Shows f r P K a) (lead : String) : Shows (lead ++ f ·) r P K a := by
  intro b s t hb hs ht heq
  simp only [String.toList_append, List.append_assoc] at heq
  exact h b s t hb hs ht (List.append_cancel_left heq)

/-- Texts made of characters of one kind show what tells them apart, in front of another kind. -/
theorem shows_of_kind (kind : Char → Bool) (hkind : ∀ b, P b → ∀ c ∈ (f b).toList, kind c = true)
    (hr : ∀ b, P b → f a = f b → r a = r b) (hK : ∀ s, K s → Follows (!kind ·) s) (ha : P a) :
    Shows f r P K a := by
  intro b s t hb hs ht heq
  obtain ⟨htext, hrest⟩ := append_inj_of_kind (hkind a ha) (hkind b hb) (hK s hs) (hK t ht) heq
  exact ⟨hr b hb (String.toList_inj.mp htext), hrest⟩

/-- A word that is there or not, in front of what cannot begin it. -/
theorem shows_flag (x : String) (c : Char) (hx : Follows (· == c) x.toList) (b : Bool) :
    Shows (fun b : Bool => if b then x else "") id (fun _ => True) (Follows (· != c)) b := by
  have hnot {u v : List Char} (hv : Follows (· != c) v) (h : x.toList ++ u = v) : False := by
    subst h
    exact (hx.append u).not_both hv
  intro d s t _ hs ht heq
  cases b <;> cases d
  · exact ⟨rfl, heq⟩
  · exact (hnot hs heq.symm).elim
  · exact (hnot ht heq).elim
  · exact ⟨rfl, List.append_cancel_left heq⟩

/-- A part that is left out if it is the default, and else begins with a character by which that is
known. -/
theorem shows_optional (c : Char) (default : β) {g : α → String}
    (hform : ∀ b, P b → f b = "" ∧ r b = default ∨ f b = g b)
    (hbegins : ∀ b, Follows (· == c) (g b).toList) (hK : ∀ s, K s → Follows (· != c) s)
    (ha : P a) (hthere : Shows g r P K a) : Shows f r P K a := by
  have hnot {b : α} {u v : List Char} (hv : K v) (h : (g b).toList ++ u = v) : False := by
    subst h
    exact ((hbegins b).append u).not_both (hK _ hv)
  intro b s t hb hs ht heq
  rcases hform a ha with ⟨hnone, hdefault⟩ | htext
  · rcases hform b hb with ⟨hnone', hdefault'⟩ | htext'
    · rw [hnone, hnone'] at heq
      exact ⟨hdefault.trans hdefault'.symm, by simpa using heq⟩
    · rw [hnone, htext'] at heq
      exact (hnot hs (by simpa using heq.symm)).elim
  · rcases hform b hb with ⟨hnone', -⟩ | htext'
    · rw [htext, hnone'] at heq
      exact (hnot ht (by simpa using heq)).elim
    · rw [htext, htext'] at heq
      exact hthere.read heq hb hs ht

end

/-! ## Sequences -/

section

variable {f : α → String} {r : α → β} {P : α → Prop} {K : List Char → Prop} {as : List α}

/-- What comes after the last of some items: the items end there, and none of them begins there. -/
structure EndsItems (f : α → String) (P : α → Prop) (K : List Char → Prop) (t : List Char) :
    Prop where
  allowed : K t
  none : ∀ b s, P b → K s → (f b).toList ++ s ≠ t

/-- Items one after another are shown if each is, in front of the next. -/
theorem shows_join (hnext : ∀ b s, P b → K s → K ((f b).toList ++ s))
    (has : ∀ a ∈ as, P a ∧ Shows f r P K a) :
    Shows (fun as => String.join (as.map f)) (List.map r) (fun bs => ∀ b ∈ bs, P b)
      (EndsItems f P K) as := by
  have hjoined (cs : List α) {u : List Char} (hcs : ∀ c ∈ cs, P c) (hu : K u) :
      K ((cs.flatMap fun c => (f c).toList) ++ u) := by
    induction cs with
    | nil => exact hu
    | cons c cs ih =>
        obtain ⟨hc, hcs⟩ := List.forall_mem_cons.mp hcs
        rw [List.flatMap_cons, List.append_assoc]
        exact hnext c _ hc (ih hcs)
  intro bs s t hbs hs ht heq
  simp only [String.toList_join, List.flatMap_map] at heq
  induction as generalizing bs with
  | nil =>
      cases bs with
      | nil => exact ⟨rfl, heq⟩
      | cons b bs =>
          obtain ⟨hb, hbs⟩ := List.forall_mem_cons.mp hbs
          rw [List.flatMap_cons, List.append_assoc] at heq
          exact absurd heq.symm (hs.none b _ hb (hjoined bs hbs ht.allowed))
  | cons a as ih =>
      obtain ⟨⟨ha, hshows⟩, has⟩ := List.forall_mem_cons.mp has
      have hrest := hjoined as (fun c hc => (has c hc).1) hs.allowed
      cases bs with
      | nil =>
          rw [List.flatMap_cons, List.append_assoc] at heq
          exact absurd heq (ht.none a _ ha hrest)
      | cons b bs =>
          obtain ⟨hb, hbs⟩ := List.forall_mem_cons.mp hbs
          simp only [List.flatMap_cons, List.append_assoc] at heq
          obtain ⟨hsame, heq⟩ := hshows b _ _ hb hrest (hjoined bs hbs ht.allowed) heq
          obtain ⟨hmap, heq⟩ := ih has bs hbs heq
          exact ⟨by rw [List.map_cons, List.map_cons, hsame, hmap], heq⟩

/-- Items each after a separator. -/
theorem shows_joinBehind (sep : String) (hsep : ∀ s, K (sep.toList ++ s))
    (has : ∀ a ∈ as, P a ∧ Shows f r P K a) :
    Shows (fun as => String.join (as.map (sep ++ f ·))) (List.map r) (fun bs => ∀ b ∈ bs, P b)
      (EndsItems (sep ++ f ·) P K) as := by
  refine shows_join ?_ fun a ha => ⟨(has a ha).1, (has a ha).2.behind sep⟩
  intro b s _ _
  rw [String.toList_append, List.append_assoc]
  exact hsep _

/-- Items after a separator end where the separator does not follow. -/
theorem endsItems_behind {kind : Char → Bool} {sep : String} {c : Char} {t : List Char}
    (hsep : sep.toList.head? = some c) (ht : Follows kind t) (hne : Follows (· != c) t) :
    EndsItems (sep ++ f ·) P (Follows kind) t := by
  refine ⟨ht, ?_⟩
  rintro b s - - rfl
  have hhead : (sep.toList ++ ((f b).toList ++ s)).head? = some c := by
    rw [List.head?_append, hsep, Option.some_or]
  rw [String.toList_append, List.append_assoc, Follows, hhead] at hne
  simp at hne

theorem toList_intercalate_cons (sep x : String) (xs : List String) :
    (sep.intercalate (x :: xs)).toList =
      x.toList ++ (String.join (xs.map (sep ++ ·))).toList := by
  induction xs generalizing x with
  | nil => simp
  | cons y ys ih =>
      rw [String.intercalate_cons_cons, String.toList_append, ih]
      simp

/-- Items with a separator between them are shown if each is, in front of the separator and at the
end, and the separator can be told from the end. -/
theorem shows_intercalate {sep : String} {K' : List Char → Prop} (hsep : ∀ s, K (sep.toList ++ s))
    (hstop : ∀ t, K' t → EndsItems (sep ++ f ·) P K t)
    (hfirst : ∀ t b s, K' t → P b → K s → (f b).toList ++ s ≠ t)
    (has : ∀ a ∈ as, P a ∧ Shows f r P K a) :
    Shows (fun as => sep.intercalate (as.map f)) (List.map r) (fun bs => ∀ b ∈ bs, P b) K' as := by
  have htail (cs : List α) {u : List Char} (hu : K' u) :
      K ((String.join (cs.map (sep ++ f ·))).toList ++ u) := by
    cases cs with
    | nil => simpa using (hstop u hu).allowed
    | cons c cs =>
        rw [List.map_cons]
        simp only [String.toList_join, List.flatMap_cons, String.toList_append, List.append_assoc]
        exact hsep _
  have hcons (c : α) (cs : List α) : (sep.intercalate ((c :: cs).map f)).toList =
      (f c).toList ++ (String.join (cs.map (sep ++ f ·))).toList := by
    rw [List.map_cons, toList_intercalate_cons, List.map_map]
    rfl
  intro bs s t hbs hs ht heq
  cases as with
  | nil =>
      cases bs with
      | nil => exact ⟨rfl, by simpa using heq⟩
      | cons b bs =>
          rw [hcons, List.append_assoc] at heq
          refine absurd heq.symm ?_
          simpa using hfirst s b _ hs (hbs b List.mem_cons_self) (htail bs ht)
  | cons a as =>
      obtain ⟨⟨ha, hshows⟩, has⟩ := List.forall_mem_cons.mp has
      cases bs with
      | nil =>
          rw [hcons, List.append_assoc] at heq
          refine absurd heq ?_
          simpa using hfirst t a _ ht ha (htail as hs)
      | cons b bs =>
          obtain ⟨hb, hbs⟩ := List.forall_mem_cons.mp hbs
          rw [hcons, hcons, List.append_assoc, List.append_assoc] at heq
          obtain ⟨hsame, heq⟩ := hshows b _ _ hb (htail as hs) (htail bs ht) heq
          obtain ⟨hmap, heq⟩ := (shows_joinBehind sep hsep has).read heq hbs (hstop s hs)
            (hstop t ht)
          exact ⟨by rw [List.map_cons, List.map_cons, hsame, hmap], heq⟩

/-- What can come after a value or an expression: the comma before the next one, or the bracket that
closes what it is in. -/
def isEnd (c : Char) : Bool := [',', ')', ']', '\x7d', '>'].contains c

theorem forall_isEnd (kind : Char → Bool) (h : [',', ')', ']', '\x7d', '>'].all kind = true)
    (c : Char) (hc : isEnd c = true) : kind c = true :=
  List.all_eq_true.mp h c (List.contains_iff_mem.mp hc)

/-- Items between commas, in front of a bracket that begins no item. -/
theorem shows_commas (ends : Char → Bool) (close : Char)
    (hends : ends ',' = true ∧ ends close = true ∧ close ≠ ',')
    (hfirst : ∀ b s, P b → Follows ends s → Follows (· != close) ((f b).toList ++ s))
    (has : ∀ a ∈ as, P a ∧ Shows f r P (Follows ends) a) :
    Shows (fun as => commas (as.map f)) (List.map r) (fun bs => ∀ b ∈ bs, P b)
      (Follows (· == close)) as := by
  obtain ⟨hcomma, hclose, hne⟩ := hends
  refine shows_intercalate (fun s => hcomma) (fun t ht => ?_) ?_ has
  · exact endsItems_behind (c := ',') rfl (ht.of_mark hclose) (ht.of_mark (bne_iff_ne.mpr hne))
  · rintro t b s ht hb hs rfl
    exact ht.not_both (hfirst b s hb hs)

end

/-! ## Plain names -/

/-- The characters that texts put around names. -/
def marks : List Char :=
  [' ', '"', '#', '%', '(', ')', '*', '+', ',', '-', '/', ':', ';', '<', '=', '>', '?', '[', ']',
    '^', '\x7b', '|', '\x7d']

def isMark (c : Char) : Bool := marks.contains c

/-- Whether a name has a character, and no mark among its characters. -/
def isPlain (s : String) : Bool := !s.toList.isEmpty && s.toList.all (!isMark ·)

theorem isPlain_iff {s : String} :
    isPlain s = true ↔ s.toList ≠ [] ∧ ∀ c ∈ s.toList, isMark c = false := by
  simp [isPlain]

theorem forall_not_isMark {x : String} (h : isPlain x = true) :
    ∀ c ∈ x.toList, (!isMark c) = true := by
  intro c hc
  rw [(isPlain_iff.mp h).2 c hc]
  rfl

theorem follows_plain {kind : Char → Bool} {x : String} (hx : isPlain x = true)
    (hkind : ∀ c, isMark c = false → kind c = true) : Follows kind x.toList := by
  obtain ⟨hne, hplain⟩ := isPlain_iff.mp hx
  obtain ⟨c, cs, hcs⟩ := List.exists_cons_of_ne_nil hne
  rw [hcs] at hplain ⊢
  exact hkind c (hplain c List.mem_cons_self)

theorem bne_of_not_isMark {mark c : Char} (hmark : isMark mark = true) (hc : isMark c = false) :
    (c != mark) = true := by
  rw [bne_iff_ne]
  rintro rfl
  rw [hmark] at hc
  cases hc

/-- A plain name in front of a mark shows itself. -/
theorem shows_plain {s : String} (h : isPlain s = true) :
    Shows id id (isPlain · = true) (Follows isMark) s := by
  refine shows_of_kind (!isMark ·) (fun _ => forall_not_isMark) (fun _ _ => id) ?_ h
  intro s hs
  simpa using hs

/-- A word from a short list of different plain words, in front of a mark. -/
theorem shows_word {f : α → String} {a : α} (all : List α)
    (hplain : ∀ a ∈ all, isPlain (f a) = true) (hnodup : (all.map f).Nodup) (ha : a ∈ all) :
    Shows f id (· ∈ all) (Follows isMark) a := by
  refine shows_of_kind (!isMark ·) ?_ ?_ (fun s hs => by simpa using hs) ha
  · exact fun b hb => forall_not_isMark (hplain b hb)
  · exact fun b hb h => List.inj_on_of_nodup_map hnodup ha hb h

/-- The same where the list holds all there is. -/
theorem shows_anyWord {f : α → String} (all : List α) (hplain : ∀ a ∈ all, isPlain (f a) = true)
    (hnodup : (all.map f).Nodup) (hall : ∀ a, a ∈ all) (a : α) :
    Shows f id (fun _ => True) (Follows isMark) a := by
  intro b s t _ hs ht heq
  exact (shows_word all hplain hnodup (hall a)).read heq (hall b) hs ht

/-- A name that may be missing, in front of a mark. -/
theorem shows_getD {x : Option String} (hx : ∀ name ∈ x, isPlain name = true) :
    Shows (fun x : Option String => x.getD "") id (fun x => ∀ name ∈ x, isPlain name = true)
      (Follows isMark) x := by
  refine shows_of_kind (!isMark ·) ?_ ?_ (fun s hs => by simpa using hs) hx
  · intro y hy c hc
    cases y with
    | none => simp at hc
    | some name => exact forall_not_isMark (hy name rfl) c hc
  · intro y hy h
    cases x with
    | none =>
        cases y with
        | none => rfl
        | some name => exact absurd (congrArg String.toList h).symm (isPlain_iff.mp (hy name rfl)).1
    | some name =>
        cases y with
        | none => exact absurd (congrArg String.toList h) (isPlain_iff.mp (hx name rfl)).1
        | some other => exact congrArg some h

/-- The characters that can come after the title of a column. -/
def endsTitle (c : Char) : Bool := c == ',' || c == ':' || c == ']'

/-- Whether a text can stand as the title of a column: nothing in it looks like the end. -/
def isTitle (s : String) : Bool := s.toList.all (!endsTitle ·)

/-- A title in front of what ends it shows itself. -/
theorem shows_title {title : String} (h : isTitle title = true) :
    Shows id id (isTitle · = true) (Follows endsTitle) title := by
  refine shows_of_kind (!endsTitle ·) ?_ (fun _ _ => id) (fun s hs => by simpa using hs) h
  exact fun b hb c hc => List.all_eq_true.mp hb c hc

/-! ## Numbers -/

theorem toDigits_inj {base m n : Nat} (hbase : 1 < base) (hbound : base ≤ 16)
    (h : Nat.toDigits base m = Nat.toDigits base n) : m = n := by
  induction m using Nat.strongRecOn generalizing n with
  | ind m ih =>
      have hdigit {i j : Nat} (hi : i < base) (hj : j < base) (hij : i.digitChar = j.digitChar) :
          i = j := by
        have hall : ∀ i < 16, ∀ j < 16, i.digitChar = j.digitChar → i = j := by decide
        exact hall i (by omega) j (by omega) hij
      rw [Nat.toDigits_eq_if (n := m) hbase, Nat.toDigits_eq_if (n := n) hbase] at h
      split at h <;> split at h
      · next hm hn => exact hdigit hm hn (by simpa using h)
      · have hlength := congrArg List.length h
        simp at hlength
      · have hlength := congrArg List.length h
        simp at hlength
      · next hm hn =>
          obtain ⟨hhigh, hlow⟩ := List.append_inj' h rfl
          have hlt : m / base < m := Nat.div_lt_self (by omega) hbase
          have hquotient := ih (m / base) hlt hhigh
          have hpos : 0 < base := by omega
          have hremainder := hdigit (Nat.mod_lt m hpos) (Nat.mod_lt n hpos) (by simpa using hlow)
          rw [← Nat.div_add_mod m base, ← Nat.div_add_mod n base, hquotient, hremainder]

theorem exists_digitChar_of_mem {base n : Nat} {c : Char} (hbase : 1 < base)
    (h : c ∈ Nat.toDigits base n) : ∃ i : Nat, c = i.digitChar := by
  induction n using Nat.strongRecOn with
  | ind n ih =>
      rw [Nat.toDigits_eq_if hbase] at h
      split at h
      · exact ⟨n, List.mem_singleton.mp h⟩
      · rcases List.mem_append.mp h with hhigh | hlow
        · exact ih (n / base) (Nat.div_lt_self (by omega) hbase) hhigh
        · exact ⟨n % base, List.mem_singleton.mp hlow⟩

theorem toList_toString_nat (n : Nat) : (toString n).toList = Nat.toDigits 10 n := by
  rw [Nat.toString_eq_ofList_toDigits, String.toList_ofList]

theorem isDigit_of_mem {n : Nat} {c : Char} (h : c ∈ (toString n).toList) : c.isDigit = true := by
  rw [toList_toString_nat] at h
  exact Nat.isDigit_of_mem_toDigits (by decide) (by decide) h

theorem toString_nat_inj {m n : Nat} (h : toString m = toString n) : m = n := by
  have hdigits : Nat.toDigits 10 m = Nat.toDigits 10 n := by
    rw [← toList_toString_nat, ← toList_toString_nat, h]
  exact toDigits_inj (by decide) (by decide) hdigits

theorem toString_int_ofNat (n : Nat) : toString (Int.ofNat n) = toString n := rfl

theorem toString_int_negSucc (n : Nat) : toString (Int.negSucc n) = "-" ++ toString (n + 1) := rfl

/-- A whole number is written with digits, perhaps after a minus sign. -/
theorem isDigit_or_minus_of_mem {i : Int} {c : Char} (h : c ∈ (toString i).toList) :
    (c.isDigit || c == '-') = true := by
  cases i with
  | ofNat n =>
      rw [toString_int_ofNat] at h
      rw [isDigit_of_mem h, Bool.true_or]
  | negSucc n =>
      rw [toString_int_negSucc, String.toList_append] at h
      rcases List.mem_append.mp h with hminus | hdigit
      · rw [List.mem_singleton.mp hminus]
        rfl
      · rw [isDigit_of_mem hdigit, Bool.true_or]

theorem toString_int_inj {i j : Int} (h : toString i = toString j) : i = j := by
  have hminus (m n : Nat) : toString m ≠ "-" ++ toString n := by
    intro heq
    have hmem : '-' ∈ (toString m).toList := by
      rw [heq, String.toList_append]
      exact List.mem_append_left _ (by decide)
    exact absurd (isDigit_of_mem hmem) (by decide)
  cases i with
  | ofNat m =>
      cases j with
      | ofNat n => exact congrArg Int.ofNat (toString_nat_inj h)
      | negSucc n => exact absurd h (hminus m (n + 1))
  | negSucc m =>
      cases j with
      | ofNat n => exact absurd h.symm (hminus n (m + 1))
      | negSucc n =>
          rw [toString_int_negSucc, toString_int_negSucc] at h
          have hdigits := congrArg String.toList h
          rw [String.toList_append, String.toList_append] at hdigits
          have hsucc := toString_nat_inj (String.toList_inj.mp (List.append_cancel_left hdigits))
          rw [Nat.succ.inj hsucc]

/-- A number in front of what is no digit shows itself. -/
theorem shows_nat (n : Nat) :
    Shows (toString : Nat → String) id (fun _ => True) (Follows (!Char.isDigit ·)) n :=
  shows_of_kind Char.isDigit (fun _ _ _ hc => isDigit_of_mem hc)
    (fun _ _ h => toString_nat_inj h) (fun _ => id) trivial

theorem shows_word64 (n : UInt64) : Shows (fun n : UInt64 => toString n.toNat) id (fun _ => True)
    (Follows (!Char.isDigit ·)) n := by
  intro m s t _ hs ht heq
  obtain ⟨hsame, heq⟩ := (shows_nat n.toNat).read heq trivial hs ht
  exact ⟨UInt64.toNat_inj.mp hsame, heq⟩

/-! ## Quoted texts -/

/-- The characters written with a backslash and one letter. -/
def escapes : List (Char × Char) :=
  [('"', '"'), ('\\', '\\'), ('\t', 't'), ('\r', 'r'), ('\n', 'n'), ('\x00', '0')]

/-- The ways to write a character in quotes. -/
inductive QuotedAs (c : Char) : List Char → Prop
  | itself : c ≠ '"' → c ≠ '\\' → QuotedAs c [c]
  | escaped {letter : Char} : (c, letter) ∈ escapes → QuotedAs c ['\\', letter]
  | number : QuotedAs c ('\\' :: 'u' :: '\x7b' :: (Nat.toDigits 16 c.toNat ++ ['\x7d']))

theorem quotedAs_quoteChar (c : Char) : QuotedAs c (quoteChar c).toList := by
  unfold quoteChar
  split
  case h_6 hquote hbackslash _ _ _ =>
    split
    · next hzero =>
        have hc : c = '\x00' := Char.toNat_inj.mp hzero
        subst hc
        exact .escaped (by decide)
    · split
      · have htext : ("\\u\x7b" ++ hex c.toNat ++ "\x7d").toList =
            '\\' :: 'u' :: '\x7b' :: (Nat.toDigits 16 c.toNat ++ ['\x7d']) := by
          simp [hex]
        rw [htext]
        exact .number
      · rw [Char.toString, String.toList_singleton]
        exact .itself hquote hbackslash
  all_goals exact .escaped (by decide)

/-- What is written for one character is not the beginning of what is written for another. -/
theorem QuotedAs.inj {c d : Char} {v w s t : List Char} (hv : QuotedAs c v) (hw : QuotedAs d w)
    (h : v ++ s = w ++ t) : c = d ∧ s = t := by
  have hsame : ∀ x ∈ escapes, ∀ y ∈ escapes, x.2 = y.2 → x.1 = y.1 := by decide
  have hletter : ∀ x ∈ escapes, x.2 ≠ 'u' := by decide
  cases hv with
  | itself _ hc =>
      cases hw with
      | itself => simpa using h
      | escaped => exact absurd (List.cons.inj h).1 hc
      | number => exact absurd (List.cons.inj h).1 hc
  | escaped hc =>
      cases hw with
      | itself _ hd => exact absurd (List.cons.inj h).1.symm hd
      | escaped hd =>
          simp only [List.cons_append, List.nil_append, List.cons.injEq, true_and] at h
          exact ⟨hsame _ hc _ hd h.1, h.2⟩
      | number =>
          simp only [List.cons_append, List.nil_append, List.cons.injEq, true_and] at h
          exact absurd h.1 (hletter _ hc)
  | number =>
      cases hw with
      | itself _ hd => exact absurd (List.cons.inj h).1.symm hd
      | escaped hd =>
          simp only [List.cons_append, List.nil_append, List.cons.injEq, true_and] at h
          exact absurd h.1.symm (hletter _ hd)
      | number =>
          simp only [List.cons_append, List.append_assoc, List.nil_append, List.cons.injEq,
            true_and] at h
          have hhex (n : Nat) (x : Char) (hx : x ∈ Nat.toDigits 16 n) : (x != '\x7d') = true := by
            obtain ⟨i, rfl⟩ := exists_digitChar_of_mem (by decide) hx
            exact bne_iff_ne.mpr (Nat.digitChar_ne '\x7d' rfl)
          obtain ⟨hdigits, hrest⟩ := append_inj_of_kind (hhex _) (hhex _) (by simp) (by simp) h
          refine ⟨Char.toNat_inj.mp (toDigits_inj (by decide) (by decide) hdigits), ?_⟩
          exact (List.cons.inj hrest).2

theorem shows_quoteChar (c : Char) : Shows quoteChar id (fun _ => True) (fun _ => True) c :=
  fun d _ _ _ _ _ h => (quotedAs_quoteChar c).inj (quotedAs_quoteChar d) h

/-- A text in quotes shows itself, whatever comes next. -/
theorem shows_quote (x : String) : Shows quote id (fun _ => True) (fun _ => True) x := by
  intro y s t _ _ _ h
  simp only [quote, String.toList_append, List.append_assoc] at h
  have hjoin := shows_join (fun _ _ _ _ => trivial) fun c (_ : c ∈ x.toList) =>
    ⟨trivial, shows_quoteChar c⟩
  have hclose (u : List Char) :
      EndsItems quoteChar (fun _ => True) (fun _ => True) ("\"".toList ++ u) := by
    refine ⟨trivial, ?_⟩
    rintro c v - - h
    have hquoted := quotedAs_quoteChar c
    generalize (quoteChar c).toList = w at h hquoted
    cases hquoted with
    | itself hc => exact hc (List.cons.inj h).1
    | escaped => simp at h
    | number => simp at h
  obtain ⟨hchars, hrest⟩ := hjoin y.toList _ _ (fun _ _ => trivial) (hclose s) (hclose t)
    (List.append_cancel_left h)
  refine ⟨String.toList_inj.mp (by simpa using hchars), List.append_cancel_left hrest⟩

/-- A list of quoted texts shows itself, whatever comes next. -/
theorem shows_quoteList (xs : List String) :
    Shows quoteList id (fun _ => True) (fun _ => True) xs := by
  intro ys s t _ _ _ h
  simp only [quoteList, String.toList_append, List.append_assoc] at h
  have hfirst (y : String) (u : List Char) (_ : True) (_ : Follows isEnd u) :
      Follows (· != ']') ((quote y).toList ++ u) := by simp [quote]
  have hitems : Shows (fun xs => commas (xs.map quote)) (List.map id) (fun ys => ∀ y ∈ ys, True)
      (Follows (· == ']')) xs :=
    shows_commas isEnd _ (by decide) hfirst fun x _ =>
      ⟨trivial, (shows_quote x).mono (fun _ => id) fun _ _ => trivial⟩
  obtain ⟨hsame, hrest⟩ := hitems ys _ _ (fun _ _ => trivial) (by simp) (by simp)
    (List.append_cancel_left h)
  exact ⟨by simpa using hsame, List.append_cancel_left hrest⟩

end QueryPlan.Text
