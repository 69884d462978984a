import QueryPlan.Proofs.Text.Legible
import QueryPlan.Proofs.Value.Equality

/-!
# Nodes and edges that can be read off

A node or an edge whose names are plain can be told from its text. The names are those of
properties, labels and variables, which stand in the text as they are. The values of properties are
taken to be told from theirs.
-/

namespace QueryPlan

open Text

/-! ## Values with plain names -/

structure NodeOf.PlainlyNamed {α : Type} (n : NodeOf α) : Prop where
  labels : ∀ label ∈ n.labels, isPlain label = true
  keys : ∀ entry ∈ n.properties, isPlain entry.1 = true
  var : ∀ name ∈ n.var, isPlain name = true
  key : ∀ name ∈ n.key, isPlain name = true
  /-- The text of a node with a variable does not show a key. -/
  one : n.var = none ∨ n.key = none

structure EdgeOf.PlainlyNamed {α : Type} (e : EdgeOf α) : Prop where
  labels : ∀ label ∈ e.labels, isPlain label = true
  keys : ∀ entry ∈ e.properties, isPlain entry.1 = true
  source : isPlain e.source = true
  target : isPlain e.target = true
  var : ∀ name ∈ e.var, isPlain name = true

structure PathOf.PlainlyNamed {α : Type} (p : PathOf α) : Prop where
  nodes : ∀ n ∈ p.nodes, n.PlainlyNamed
  edges : ∀ e ∈ p.edges, e.PlainlyNamed
  var : ∀ name ∈ p.var, isPlain name = true
  nonempty : p.nodes ≠ []

namespace Value

/-- The names right inside a value are plain. -/
def HasPlainNames : Value → Prop
  | float _ => False
  | map entries => ∀ entry ∈ entries, isPlain entry.1 = true
  | node n => n.PlainlyNamed
  | edge e => e.PlainlyNamed
  | path p => p.PlainlyNamed
  | _ => True

/-- All names in a value are plain. -/
inductive PlainlyNamed : Value → Prop
  | intro {v : Value} : v.HasPlainNames → (∀ c ∈ v.children, PlainlyNamed c) → PlainlyNamed v

theorem PlainlyNamed.names {v : Value} (h : v.PlainlyNamed) : v.HasPlainNames := by
  cases h with
  | intro hnames _ => exact hnames

theorem PlainlyNamed.child {v c : Value} (h : v.PlainlyNamed) (hc : c ∈ v.children) :
    c.PlainlyNamed := by
  cases h with
  | intro _ hchildren => exact hchildren c hc

end Value

/-! ## Parts of texts -/

namespace Text

/-- Plain names, each after a mark, in front of another mark. -/
theorem shows_labels {labels : List String} (h : ∀ label ∈ labels, isPlain label = true) :
    Shows (fun labels : List String => String.join (labels.map (":" ++ ·))) id
      (fun labels => ∀ label ∈ labels, isPlain label = true)
      (Follows fun c => isMark c && c != ':') labels := by
  have hjoin := shows_joinBehind ":" (fun _ => rfl) fun label hlabel =>
    ⟨h label hlabel, shows_plain (h label hlabel)⟩
  refine hjoin.mono (fun _ => by simp) fun s hs => endsItems_behind (c := ':') rfl ?_ ?_
  · exact hs.mono fun c hc => (Bool.and_eq_true_iff.mp hc).1
  · exact hs.mono fun c hc => (Bool.and_eq_true_iff.mp hc).2

end Text

namespace Value

/-- The text of a value shows it, in front of a comma or a closing bracket. -/
abbrev Shown (v : Value) : Prop := Shows text id PlainlyNamed (Follows isEnd) v

/-! ## Properties -/

/-- A property as it stands in texts. -/
def entryText (entry : String × Value) : String := entry.1 ++ ": " ++ entry.2.text

theorem entryTexts_eq_map (entries : List (String × Value)) :
    entryTexts entries = entries.map entryText := by
  induction entries with
  | nil => rfl
  | cons entry entries ih =>
      obtain ⟨key, value⟩ := entry
      rw [entryTexts, ih, List.map_cons, entryText]

/-- The keys and the values are plainly named. -/
def PlainEntry (entry : String × Value) : Prop := isPlain entry.1 = true ∧ entry.2.PlainlyNamed

theorem shows_entry {entry : String × Value} (h : PlainEntry entry) (hvalue : entry.2.Shown) :
    Shows entryText id PlainEntry (Follows isEnd) entry := by
  intro other s t hother hs ht heq
  simp only [entryText, String.toList_append, List.append_assoc] at heq
  obtain ⟨hkey, heq⟩ := (shows_plain h.1).read heq hother.1 rfl rfl
  obtain ⟨hval, heq⟩ := hvalue.read (List.append_cancel_left heq) hother.2 hs ht
  exact ⟨Prod.ext hkey hval, heq⟩

theorem shows_entries {entries : List (String × Value)} (h : ∀ entry ∈ entries, PlainEntry entry)
    (hvalues : ∀ v ∈ entries.map Prod.snd, v.Shown) :
    Shows (fun entries => commas (entryTexts entries)) id
      (fun entries => ∀ entry ∈ entries, PlainEntry entry) (Follows (· == '\x7d')) entries := by
  have hcommas : Shows (fun entries => commas (entries.map entryText)) (List.map id)
      (fun entries => ∀ entry ∈ entries, PlainEntry entry) (Follows (· == '\x7d')) entries := by
    refine shows_commas isEnd _ (by decide) ?_ fun entry hentry => ⟨h entry hentry, ?_⟩
    · intro entry s hentry _
      rw [entryText, String.append_assoc, String.toList_append, List.append_assoc]
      exact (follows_plain hentry.1 fun c => bne_of_not_isMark rfl).append _
    · exact shows_entry (h entry hentry) (hvalues _ (List.mem_map_of_mem hentry))
  simp only [entryTexts_eq_map]
  exact hcommas.mono (fun _ => by simp) fun _ => id

/-- Properties in front of what is no blank. -/
theorem shows_properties {entries : List (String × Value)}
    (h : ∀ entry ∈ entries, PlainEntry entry) (hvalues : ∀ v ∈ entries.map Prod.snd, v.Shown) :
    Shows (fun entries => propertiesText (entryTexts entries)) id
      (fun entries => ∀ entry ∈ entries, PlainEntry entry) (Follows (· != ' ')) entries := by
  refine shows_optional ' ' [] (g := fun es => " \x7b" ++ commas (entryTexts es) ++ "\x7d")
    ?_ ?_ (fun _ => id) h ?_
  · intro others _
    cases others with
    | nil => exact Or.inl ⟨rfl, rfl⟩
    | cons entry others => exact Or.inr rfl
  · intro others
    simp
  · intro others s t hothers _ _ heq
    simp only [String.toList_append, List.append_assoc] at heq
    obtain ⟨hsame, heq⟩ := (shows_entries h hvalues).read (List.append_cancel_left heq) hothers
      rfl rfl
    exact ⟨hsame, List.append_cancel_left heq⟩

/-! ## Nodes -/

/-- All names in a node are plain, down to the values of its properties. -/
structure PlainNode (n : Node) : Prop extends n.PlainlyNamed where
  values : ∀ v ∈ n.properties.map Prod.snd, v.PlainlyNamed

theorem PlainNode.entries {n : Node} (h : PlainNode n) :
    ∀ entry ∈ n.properties, PlainEntry entry :=
  fun entry hentry => ⟨h.keys entry hentry, h.values _ (List.mem_map_of_mem hentry)⟩

/-- A key as it stands in texts. -/
def keyText (key : Option String) : String := if key.isSome then "#" ++ key.getD "" else ""

theorem nodeName_eq {n : Node} (h : n.PlainlyNamed) :
    nodeName n.var n.key = n.var.getD "" ++ keyText n.key := by
  rcases h.one with hnone | hnone <;> rw [hnone]
  · cases n.key <;> simp [nodeName, keyText]
  · cases n.var <;> simp [nodeName, keyText]

theorem shows_key {key : Option String} (h : ∀ name ∈ key, isPlain name = true) :
    Shows keyText id (fun key => ∀ name ∈ key, isPlain name = true)
      (Follows fun c => isMark c && c != '#') key := by
  refine shows_optional '#' none (g := fun key => "#" ++ key.getD "") ?_ ?_ ?_ h ?_
  · intro key _
    cases key with
    | none => exact Or.inl ⟨rfl, rfl⟩
    | some name => exact Or.inr rfl
  · intro key
    simp
  · exact fun s hs => hs.mono fun c hc => (Bool.and_eq_true_iff.mp hc).2
  · refine ((shows_getD h).behind "#").mono (fun _ => id) fun s hs => ?_
    exact hs.mono fun c hc => (Bool.and_eq_true_iff.mp hc).1

theorem propertiesText_cons (entry : String × Value) (entries : List (String × Value)) :
    propertiesText (entryTexts (entry :: entries)) =
      " \x7b" ++ commas (entryTexts (entry :: entries)) ++ "\x7d" := rfl

theorem follows_properties {kind : Char → Bool} (hkind : kind ' ' = true)
    (entries : List (String × Value)) {s : List Char} (hs : Follows kind s) :
    Follows kind ((propertiesText (entryTexts entries)).toList ++ s) := by
  cases entries with
  | nil => exact hs
  | cons entry entries =>
      rw [propertiesText_cons]
      simpa using hkind

theorem follows_labels {kind : Char → Bool} (hkind : kind ':' = true) (labels : List String)
    {s : List Char} (hs : Follows kind s) :
    Follows kind ((String.join (labels.map (":" ++ ·))).toList ++ s) := by
  cases labels with
  | nil => exact hs
  | cons label labels => simpa using hkind

theorem follows_key {kind : Char → Bool} (hkind : kind '#' = true) (key : Option String)
    {s : List Char} (hs : Follows kind s) : Follows kind ((keyText key).toList ++ s) := by
  cases key with
  | none => exact hs
  | some name => simpa [keyText] using hkind

theorem follows_getD {kind : Char → Bool} (hkind : ∀ c, isMark c = false → kind c = true)
    {x : Option String} (hx : ∀ name ∈ x, isPlain name = true) {s : List Char}
    (hs : Follows kind s) : Follows kind ((x.getD "").toList ++ s) := by
  cases x with
  | none => exact hs
  | some name => exact (follows_plain (hx name rfl) hkind).append s

/-- What a node's text has after its variable. -/
def afterVar (n : Node) (s : List Char) : List Char :=
  (keyText n.key).toList ++ ((String.join (n.labels.map (":" ++ ·))).toList ++
    ((propertiesText (entryTexts n.properties)).toList ++ (")".toList ++ s)))

theorem toList_nodeText {n : Node} (h : n.PlainlyNamed) (s : List Char) :
    (nodeText n).toList ++ s = "(".toList ++ ((if n.placeholder then "?" else "").toList ++
      ((n.var.getD "").toList ++ afterVar n s)) := by
  have hname := nodeName_eq h
  obtain ⟨labels, properties, var, key, placeholder⟩ := n
  rw [nodeText, hname]
  simp only [String.toList_append, List.append_assoc, afterVar]

theorem follows_afterVar {kind : Char → Bool} (h : ['#', ':', ' ', ')'].all kind = true)
    (n : Node) (s : List Char) : Follows kind (afterVar n s) := by
  have hkind := List.all_eq_true.mp h
  refine follows_key (hkind _ (by decide)) _ (follows_labels (hkind _ (by decide)) _ ?_)
  exact follows_properties (hkind _ (by decide)) _ (hkind _ (by decide))

/-- A node shows itself, whatever comes next. -/
theorem shows_node {n : Node} (h : PlainNode n)
    (hvalues : ∀ v ∈ n.properties.map Prod.snd, v.Shown) :
    Shows nodeText id PlainNode (fun _ => True) n := by
  intro m s t hm _ _ heq
  have hstart {n : Node} (h : PlainNode n) (u : List Char) :
      Follows (· != '?') ((n.var.getD "").toList ++ afterVar n u) :=
    follows_getD (fun c => bne_of_not_isMark rfl) h.var (follows_afterVar (by decide) n u)
  have hmark (n : Node) (u : List Char) : Follows isMark (afterVar n u) :=
    follows_afterVar (by decide) n u
  have hlabels (n : Node) (u : List Char) : Follows (fun c => isMark c && c != ':')
      ((propertiesText (entryTexts n.properties)).toList ++ (")".toList ++ u)) :=
    follows_properties rfl _ rfl
  have hkey (n : Node) (u : List Char) : Follows (fun c => isMark c && c != '#')
      ((String.join (n.labels.map (":" ++ ·))).toList ++
        ((propertiesText (entryTexts n.properties)).toList ++ (")".toList ++ u))) :=
    follows_labels rfl _ (follows_properties rfl _ rfl)
  rw [toList_nodeText h.toPlainlyNamed, toList_nodeText hm.toPlainlyNamed] at heq
  obtain ⟨hplaceholder, heq⟩ := (shows_flag "?" '?' rfl n.placeholder).read
    (List.append_cancel_left heq) trivial (hstart h s) (hstart hm t)
  obtain ⟨hvar, heq⟩ := (shows_getD h.var).read heq hm.var (hmark n s) (hmark m t)
  obtain ⟨hkeys, heq⟩ := (shows_key h.key).read heq hm.key (hkey n s) (hkey m t)
  obtain ⟨hlabel, heq⟩ := (shows_labels h.labels).read heq hm.labels (hlabels n s) (hlabels m t)
  obtain ⟨hproperties, heq⟩ := (shows_properties h.entries hvalues).read heq hm.entries rfl rfl
  refine ⟨?_, List.append_cancel_left heq⟩
  obtain ⟨labels, properties, var, key, placeholder⟩ := n
  obtain ⟨labels', properties', var', key', placeholder'⟩ := m
  dsimp only [id] at hplaceholder hvar hkeys hlabel hproperties
  subst hplaceholder hvar hkeys hlabel hproperties
  rfl

/-! ## Edges -/

/-- All names in an edge are plain, down to the values of its properties. -/
structure PlainEdge (e : Edge) : Prop extends e.PlainlyNamed where
  values : ∀ v ∈ e.properties.map Prod.snd, v.PlainlyNamed

theorem PlainEdge.entries {e : Edge} (h : PlainEdge e) :
    ∀ entry ∈ e.properties, PlainEntry entry :=
  fun entry hentry => ⟨h.keys entry hentry, h.values _ (List.mem_map_of_mem hentry)⟩

/-- The types of an edge, in front of what can come after them. -/
theorem shows_types {labels : List String} (h : ∀ label ∈ labels, isPlain label = true) :
    Shows edgeTypes id (fun labels => ∀ label ∈ labels, isPlain label = true)
      (Follows fun c => isMark c && c != ':' && c != '|') labels := by
  refine shows_optional ':' [] (g := fun labels => ":" ++ "|".intercalate labels) ?_ ?_ ?_ h ?_
  · intro labels _
    cases labels with
    | nil => exact Or.inl ⟨rfl, rfl⟩
    | cons label labels => exact Or.inr rfl
  · intro labels
    simp
  · exact fun s hs => hs.mono fun c hc => by simp_all
  · have hbars : Shows (fun labels => "|".intercalate (labels.map id)) (List.map id)
        (fun labels => ∀ label ∈ labels, isPlain label = true)
        (Follows fun c => isMark c && c != ':' && c != '|') labels := by
      refine shows_intercalate (fun s => rfl)
        (fun t ht => endsItems_behind (c := '|') rfl ?_ ?_) ?_
        fun label hlabel => ⟨h label hlabel, shows_plain (h label hlabel)⟩
      · exact ht.mono fun c hc => by simp_all
      · exact ht.mono fun c hc => by simp_all
      · rintro t label s ht hlabel - rfl
        have hmark : Follows isMark (label.toList ++ s) := ht.mono fun c hc => by simp_all
        exact hmark.not_both ((follows_plain hlabel fun c hc => by rw [hc]; rfl).append s)
    simp only [List.map_id_fun, id] at hbars
    exact hbars.behind ":"

theorem shows_optionNat (n : Option Nat) :
    Shows (fun n : Option Nat => n.elim "" toString) id (fun _ => True)
      (Follows (!Char.isDigit ·)) n := by
  have hne (k : Nat) : (toString k).toList ≠ [] := by
    rw [toList_toString_nat]
    exact Nat.toDigits_ne_nil
  refine shows_of_kind Char.isDigit ?_ ?_ (fun _ => id) trivial
  · intro m _ c hc
    cases m with
    | none => simp at hc
    | some k => exact isDigit_of_mem hc
  · intro m _ h
    cases n with
    | none =>
        cases m with
        | none => rfl
        | some k => exact absurd (congrArg String.toList h).symm (hne k)
    | some j =>
        cases m with
        | none => exact absurd (congrArg String.toList h) (hne j)
        | some k => exact congrArg some (toString_nat_inj h)

theorem hopsText_cases (least : Nat) (most : Option Nat) :
    hopsText least most = "" ∧ (least, most) = (1, some 1) ∨
      hopsText least most = "*" ++ toString least ++ ".." ++ most.elim "" toString := by
  unfold hopsText
  split
  · next hsingle =>
      left
      simp_all
  · right
    cases most with
    | none => exact String.append_empty.symm
    | some most => rfl

theorem shows_hops (hops : Nat × Option Nat) :
    Shows (fun hops : Nat × Option Nat => hopsText hops.1 hops.2) id (fun _ => True)
      (Follows fun c => !c.isDigit && c != '*') hops := by
  refine shows_optional '*' (1, some 1)
    (g := fun hops => "*" ++ toString hops.1 ++ ".." ++ hops.2.elim "" toString) ?_ ?_ ?_ trivial ?_
  · rintro ⟨least, most⟩ -
    exact hopsText_cases least most
  · intro hops
    simp
  · exact fun s hs => hs.mono fun c hc => by simp_all
  · intro others s t _ hs ht heq
    have hdigit (u : List Char) (hu : Follows (fun c => !c.isDigit && c != '*') u) :
        Follows (!Char.isDigit ·) u := hu.mono fun c hc => by simp_all
    simp only [String.toList_append, List.append_assoc] at heq
    obtain ⟨hleast, heq⟩ := (shows_nat hops.1).read (List.append_cancel_left heq) trivial rfl rfl
    obtain ⟨hmost, heq⟩ := (shows_optionNat hops.2).read (List.append_cancel_left heq) trivial
      (hdigit s hs) (hdigit t ht)
    exact ⟨Prod.ext hleast hmost, heq⟩

theorem shows_strokes (d : Direction) :
    Shows (fun d : Direction => d.strokes.1) (fun d => d.strokes.1) (fun _ => True)
        (Follows (· == '[')) d ∧
      Shows (fun d : Direction => d.strokes.2) (fun d => d.strokes.2) (fun _ => True)
        (Follows (· == '(')) d := by
  have hopen (bracket : Char) (s : List Char) (hs : Follows (· == bracket) s) :
      Follows (fun c => !(c != bracket)) s := hs.mono fun c hc => by simpa using hc
  refine ⟨shows_of_kind (· != '[') ?_ (fun _ _ => id) (hopen '[') trivial,
    shows_of_kind (· != '(') ?_ (fun _ _ => id) (hopen '(') trivial⟩
  · rintro d -
    exact List.all_eq_true.mp (by cases d <;> decide)
  · rintro d -
    exact List.all_eq_true.mp (by cases d <;> decide)

theorem Direction.eq_of_strokes {d d' : Direction} (hfirst : d.strokes.1 = d'.strokes.1)
    (hsecond : d.strokes.2 = d'.strokes.2) : d = d' := by
  cases d <;> cases d' <;> first | rfl | exact absurd hfirst (by decide) |
    exact absurd hsecond (by decide)

/-- What an edge's text has between its square brackets and after them. -/
def afterBracket (e : Edge) (s : List Char) : List Char :=
  (e.var.getD "").toList ++ ((edgeTypes e.labels).toList ++
    ((hopsText e.minHops e.maxHops).toList ++
      ((propertiesText (entryTexts e.properties)).toList ++ ("]".toList ++
        (e.direction.strokes.2.toList ++ ("(".toList ++ (e.target.toList ++ (")".toList ++ s))))))))

-- by computation: the equations of the recursive definition are slow to come by
theorem edgeText_eq (e : Edge) : edgeText e =
    "(" ++ e.source ++ ")" ++ e.direction.strokes.1 ++ "[" ++ e.var.getD "" ++
      edgeTypes e.labels ++ hopsText e.minHops e.maxHops ++
      propertiesText (entryTexts e.properties) ++ "]" ++ e.direction.strokes.2 ++ "(" ++ e.target ++
      ")" := by
  cases e
  rfl

theorem toList_edgeText (e : Edge) (s : List Char) : (edgeText e).toList ++ s =
    "(".toList ++ (e.source.toList ++ (")".toList ++ (e.direction.strokes.1.toList ++
      ("[".toList ++ afterBracket e s)))) := by
  rw [edgeText_eq]
  simp only [String.toList_append, List.append_assoc, afterBracket]

theorem follows_types {kind : Char → Bool} (hkind : kind ':' = true) (labels : List String)
    {s : List Char} (hs : Follows kind s) : Follows kind ((edgeTypes labels).toList ++ s) := by
  cases labels with
  | nil => exact hs
  | cons label labels => simpa [edgeTypes] using hkind

theorem follows_hops {kind : Char → Bool} (hkind : kind '*' = true) (least : Nat)
    (most : Option Nat) {s : List Char} (hs : Follows kind s) :
    Follows kind ((hopsText least most).toList ++ s) := by
  rcases hopsText_cases least most with ⟨htext, -⟩ | htext <;> rw [htext]
  · exact hs
  · simpa using hkind

/-- An edge shows itself, whatever comes next. -/
theorem shows_edge {e : Edge} (h : PlainEdge e)
    (hvalues : ∀ v ∈ e.properties.map Prod.snd, v.Shown) :
    Shows edgeText id PlainEdge (fun _ => True) e := by
  intro d s t hd _ _ heq
  have hhops (e : Edge) (u : List Char) : Follows (fun c => !c.isDigit && c != '*')
      ((propertiesText (entryTexts e.properties)).toList ++ ("]".toList ++ u)) :=
    follows_properties rfl _ rfl
  have htypes (e : Edge) (u : List Char) : Follows (fun c => isMark c && c != ':' && c != '|')
      ((hopsText e.minHops e.maxHops).toList ++
        ((propertiesText (entryTexts e.properties)).toList ++ ("]".toList ++ u))) :=
    follows_hops rfl _ _ (follows_properties rfl _ rfl)
  have hvar (e : Edge) (u : List Char) : Follows isMark ((edgeTypes e.labels).toList ++
      ((hopsText e.minHops e.maxHops).toList ++
        ((propertiesText (entryTexts e.properties)).toList ++ ("]".toList ++ u)))) :=
    follows_types rfl _ (follows_hops rfl _ _ (follows_properties rfl _ rfl))
  rw [toList_edgeText, toList_edgeText] at heq
  obtain ⟨hsource, heq⟩ := (shows_plain h.source).read (List.append_cancel_left heq) hd.source
    rfl rfl
  obtain ⟨hfirst, heq⟩ := (shows_strokes e.direction).1.read (List.append_cancel_left heq) trivial
    rfl rfl
  replace heq := List.append_cancel_left heq
  unfold afterBracket at heq
  obtain ⟨hvars, heq⟩ := (shows_getD h.var).read heq hd.var (hvar e _) (hvar d _)
  obtain ⟨hlabels, heq⟩ := (shows_types h.labels).read heq hd.labels (htypes e _) (htypes d _)
  obtain ⟨hhop, heq⟩ := (shows_hops (e.minHops, e.maxHops)).read
    (b := (d.minHops, d.maxHops)) heq trivial (hhops e _) (hhops d _)
  obtain ⟨hproperties, heq⟩ := (shows_properties h.entries hvalues).read heq hd.entries rfl rfl
  obtain ⟨hsecond, heq⟩ := (shows_strokes e.direction).2.read (List.append_cancel_left heq) trivial
    rfl rfl
  obtain ⟨htarget, heq⟩ := (shows_plain h.target).read (List.append_cancel_left heq) hd.target
    rfl rfl
  refine ⟨?_, List.append_cancel_left heq⟩
  have hdirection := Direction.eq_of_strokes hfirst hsecond
  obtain ⟨labels, properties, source, target, direction, var, minHops, maxHops⟩ := e
  obtain ⟨labels', properties', source', target', direction', var', minHops', maxHops'⟩ := d
  obtain ⟨hleast, hmost⟩ := Prod.mk.inj hhop
  dsimp only [id] at hsource hvars hlabels hproperties htarget hdirection hleast hmost
  subst hsource hvars hlabels hproperties htarget hdirection hleast hmost
  rfl

end Value

end QueryPlan
