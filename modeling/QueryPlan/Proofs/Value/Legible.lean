import QueryPlan.Proofs.Value.Elements

/-!
# Values that can be read off

A value whose names are plain can be told from its text. Only numbers that are not whole are left
out.

The text of a value does not say at its first character what kind of value it is: a round bracket
opens a node as well as an edge, and a path may begin with its variable. `Text.leadOf` looks as far
as it takes, and tells calls and references of expressions from values too.
-/

namespace QueryPlan

namespace Text

/-! ## What kind of text comes -/

/-- What a text is of. -/
inductive Lead
  | atom
  | quoted
  | list
  | map
  | node
  | edge
  | path
  | ref
  | call
deriving DecidableEq

/-- The text without the name it begins with, if it does. -/
def afterName (s : List Char) : List Char := s.dropWhile (!isMark ·)

/-- Whether an edge goes on like this after the name of its source. -/
def continuesEdge : List Char → Bool
  | ')' :: c :: _ => c == '-' || c == '<'
  | _ => false

/-- Whether a node goes on like this after its variable. -/
def continuesNode : List Char → Bool
  | ' ' :: c :: _ => c == '\x7b'
  | c :: _ => ['?', '#', ':', ')'].contains c
  | [] => false

/-- What a text that begins with a mark is of. -/
def leadOfMark (c : Char) (s : List Char) : Lead :=
  if c = '"' then .quoted
  else if c = '[' then .list
  else if c = '\x7b' then .map
  else if c = '(' then if continuesEdge (afterName s) then .edge else .node
  else if c = '<' then
    -- A comparison has two operands, so its first is followed by a comma.
    if s.head? == some '(' && continuesNode (afterName s.tail) then .path else .call
  else if c = '-' then if s.head? == some '(' then .call else .atom
  else .call

theorem leadOfMark_less (s : List Char) : leadOfMark '<' s =
    if s.head? == some '(' && continuesNode (afterName s.tail) then .path else .call := rfl

theorem leadOfMark_minus (s : List Char) :
    leadOfMark '-' s = if s.head? == some '(' then .call else .atom := rfl

theorem leadOfMark_paren (s : List Char) :
    leadOfMark '(' s = if continuesEdge (afterName s) then .edge else .node := rfl

/-- What a text is of that begins with a name, from what comes after the name. -/
def leadOfName (c : Char) (s : List Char) : Lead :=
  if s.head? = some ' ' then .path
  else if s.head? = some '(' then .call
  else if c = '$' then .ref
  else .atom

/-- What a text is of. -/
def leadOf : List Char → Lead
  | [] => .atom
  | c :: s => if isMark c then leadOfMark c s else leadOfName c (afterName s)

theorem afterName_of_follows {s : List Char} (h : Follows isMark s) : afterName s = s := by
  cases s with
  | nil => rfl
  | cons c s =>
      rw [afterName, List.dropWhile_cons_of_neg]
      rw [follows_cons.mp h]
      decide

theorem afterName_append {x s : List Char} (hx : ∀ c ∈ x, isMark c = false)
    (hs : Follows isMark s) : afterName (x ++ s) = s := by
  have hdrop : afterName (x ++ s) = afterName s :=
    List.dropWhile_append_of_pos fun c hc => by rw [hx c hc]; rfl
  rw [hdrop, afterName_of_follows hs]

theorem afterName_plain {x : String} {s : List Char} (hx : isPlain x = true)
    (hs : Follows isMark s) : afterName (x.toList ++ s) = s :=
  afterName_append (isPlain_iff.mp hx).2 hs

/-- A name leads to what is known from its first character and from what comes after it. -/
theorem leadOf_plain {x : String} {s : List Char} (hx : isPlain x = true) (hs : Follows isMark s) :
    ∃ c ∈ x.toList.head?, leadOf (x.toList ++ s) = leadOfName c s := by
  obtain ⟨hne, hplain⟩ := isPlain_iff.mp hx
  obtain ⟨c, cs, hcs⟩ := List.exists_cons_of_ne_nil hne
  rw [hcs] at hplain ⊢
  obtain ⟨hc, hrest⟩ := List.forall_mem_cons.mp hplain
  refine ⟨c, rfl, ?_⟩
  rw [List.cons_append, leadOf, hc, afterName_append hrest hs]
  rfl

/-- What begins with an end is of no value. -/
theorem leadOf_end {c : Char} (hc : isEnd c = true) (s : List Char) : leadOf (c :: s) = .call := by
  have hends : c = ',' ∨ c = ')' ∨ c = ']' ∨ c = '\x7d' ∨ c = '>' := by simpa [isEnd] using hc
  rcases hends with rfl | rfl | rfl | rfl | rfl <;> rfl

theorem isMark_of_isEnd (c : Char) (h : isEnd c = true) : isMark c = true :=
  forall_isEnd _ (by decide) c h

/-- A name with an end after it is an atom or a reference. -/
theorem leadOfName_of_end {c : Char} {s : List Char} (h : Follows isEnd s) :
    leadOfName c s = if c = '$' then .ref else .atom := by
  have hhead {d : Char} (hd : isEnd d = false) : s.head? ≠ some d := by
    intro heq
    rw [Follows, heq] at h
    exact absurd (h.symm.trans hd) (by decide)
  rw [leadOfName, if_neg (hhead rfl), if_neg (hhead rfl)]

theorem isPlain_toString_nat (n : Nat) : isPlain (toString n) = true := by
  rw [isPlain_iff, toList_toString_nat]
  refine ⟨Nat.toDigits_ne_nil, fun c hc => ?_⟩
  have hdigit : c.isDigit = true := Nat.isDigit_of_mem_toDigits (by decide) (by decide) hc
  have hmarks : marks.all (!·.isDigit) = true := by decide
  refine Bool.eq_false_iff.mpr fun hmark => ?_
  have hother := List.all_eq_true.mp hmarks c (List.contains_iff_mem.mp hmark)
  rw [hdigit] at hother
  cases hother

end Text

open Text

namespace Value

/-! ## What kind of value comes -/

/-- What the text of a value is of. -/
def lead : Value → Lead
  | null | bool _ | int _ | float _ => .atom
  | string _ => .quoted
  | list _ => .list
  | map _ => .map
  | node _ => .node
  | edge _ => .edge
  | path _ => .path

theorem lead_ne_ref (v : Value) : v.lead ≠ .ref := by cases v <;> exact nofun

theorem lead_ne_call (v : Value) : v.lead ≠ .call := by cases v <;> exact nofun

/-- A node's text goes on after the variable with a mark by which it is known for one. -/
theorem afterVar_cases (n : Node) (s : List Char) :
    Follows (['?', '#', ':'].contains ·) (afterVar n s) ∨
      (∃ u, afterVar n s = ' ' :: '\x7b' :: u) ∨ afterVar n s = ')' :: s := by
  obtain ⟨labels, properties, var, key, placeholder⟩ := n
  cases key with
  | some name => exact Or.inl (by simp [afterVar, keyText])
  | none =>
      cases labels with
      | cons label labels => exact Or.inl (by simp [afterVar, keyText])
      | nil =>
          cases properties with
          | cons entry properties =>
              refine Or.inr (Or.inl ⟨(commas (entryTexts (entry :: properties))).toList ++
                ('\x7d' :: ')' :: s), ?_⟩)
              simp [afterVar, keyText, propertiesText_cons]
          | nil => exact Or.inr (Or.inr rfl)

theorem afterName_nodeText {n : Node} (h : n.PlainlyNamed) (s : List Char) :
    ∃ u, (nodeText n).toList ++ s = '(' :: u ∧ (Follows (['?', '#', ':'].contains ·) (afterName u) ∨
      (∃ v, afterName u = ' ' :: '\x7b' :: v) ∨ afterName u = ')' :: s) := by
  rw [toList_nodeText h]
  refine ⟨_, rfl, ?_⟩
  cases n.placeholder with
  | true => exact Or.inl rfl
  | false =>
      have hmark : Follows isMark (afterVar n s) := follows_afterVar (by decide) n s
      have hafter : afterName ((n.var.getD "").toList ++ afterVar n s) = afterVar n s := by
        cases hvar : n.var with
        | none => exact afterName_of_follows hmark
        | some name => exact afterName_plain (h.var name hvar) hmark
      have hcases := afterVar_cases n s
      rw [← hafter] at hcases
      exact hcases

theorem lead_node {n : Node} {s : List Char} (h : n.PlainlyNamed) (hs : Follows isEnd s) :
    leadOf ((nodeText n).toList ++ s) = .node := by
  obtain ⟨u, hu, hafter⟩ := afterName_nodeText h s
  have hnot : continuesEdge (afterName u) = false := by
    rcases hafter with hmark | ⟨v, hv⟩ | hlast
    · obtain ⟨c, v, hv, hc⟩ := hmark.exists_cons
      have hcs : c = '?' ∨ c = '#' ∨ c = ':' := by simpa using hc
      rcases hcs with rfl | rfl | rfl <;> rw [hv] <;> rfl
    · rw [hv]
      rfl
    · obtain ⟨c, v, rfl, hc⟩ := hs.exists_cons
      rw [hlast]
      have hends := forall_isEnd (fun c => !(c == '-' || c == '<')) (by decide) c hc
      simpa [continuesEdge] using hends
  have hmark : leadOf ('(' :: u) = leadOfMark '(' u := rfl
  rw [hu, hmark, leadOfMark_paren, hnot]
  rfl

theorem lead_edge {e : Edge} (h : e.PlainlyNamed) (s : List Char) :
    leadOf ((edgeText e).toList ++ s) = .edge := by
  have hmark (u : List Char) : leadOf ("(".toList ++ u) = leadOfMark '(' u := rfl
  have hedge : continuesEdge (")".toList ++ (e.direction.strokes.1.toList ++
      ("[".toList ++ afterBracket e s))) = true := by
    cases e.direction <;> rfl
  rw [toList_edgeText, hmark, leadOfMark_paren, afterName_plain h.source, hedge]
  · rfl
  · rfl

/-! ## Paths -/

theorem nodeTexts_eq_map (nodes : List Node) : nodeTexts nodes = nodes.map nodeText := by
  induction nodes with
  | nil => rfl
  | cons n nodes ih => rw [nodeTexts, ih, List.map_cons]

theorem edgeTexts_eq_map (edges : List Edge) : edgeTexts edges = edges.map edgeText := by
  induction edges with
  | nil => rfl
  | cons e edges ih => rw [edgeTexts, ih, List.map_cons]

/-- All names in a path are plain, down to the values of its properties. -/
structure PlainPath (p : Path) : Prop where
  nodes : ∀ n ∈ p.nodes, PlainNode n
  edges : ∀ e ∈ p.edges, PlainEdge e
  var : ∀ name ∈ p.var, isPlain name = true
  nonempty : p.nodes ≠ []

/-- The variable of a path as it stands in texts. -/
def pathVar (var : Option String) : String := if var.isSome then var.getD "" ++ " = " else ""

theorem toList_pathText (p : Path) (s : List Char) : (pathText p).toList ++ s =
    (pathVar p.var).toList ++ ("<".toList ++ ((commas (p.nodes.map nodeText)).toList ++
      ((String.join (p.edges.map (", " ++ edgeText ·))).toList ++ (">".toList ++ s)))) := by
  obtain ⟨nodes, edges, var⟩ := p
  cases var <;> rw [pathText.eq_def] <;>
    simp [pathVar, nodeTexts_eq_map, edgeTexts_eq_map, Function.comp_def]

theorem shows_pathVar {var : Option String} (h : ∀ name ∈ var, isPlain name = true) :
    Shows pathVar id (fun var => ∀ name ∈ var, isPlain name = true) (Follows (· == '<')) var := by
  intro other s t hother hs ht heq
  have hname {x : String} (hx : isPlain x = true) {u v : List Char} (hv : Follows (· == '<') v)
      (h : (x ++ " = ").toList ++ u = v) : False := by
    subst h
    refine hv.not_both ?_
    rw [String.toList_append, List.append_assoc]
    exact (follows_plain hx fun c => bne_of_not_isMark rfl).append _
  cases var with
  | none =>
      cases other with
      | none => exact ⟨rfl, heq⟩
      | some name => exact (hname (hother name rfl) hs heq.symm).elim
  | some name =>
      cases other with
      | none => exact (hname (h name rfl) ht heq).elim
      | some name' =>
          simp only [pathVar, Option.isSome_some, if_true, Option.getD_some, String.toList_append,
            List.append_assoc] at heq
          obtain ⟨hsame, heq⟩ := (shows_plain (h name rfl)).read heq (hother name' rfl) rfl rfl
          exact ⟨congrArg some hsame, List.append_cancel_left heq⟩

/-- A path shows itself, whatever comes next. -/
theorem shows_path {p : Path} (h : PlainPath p) (hvalues : ∀ v ∈ (path p).children, v.Shown) :
    Shows pathText id PlainPath (fun _ => True) p := by
  intro q s t hq _ _ heq
  have hchildren := List.forall_mem_append.mp hvalues
  rw [List.forall_mem_flatMap, List.forall_mem_flatMap] at hchildren
  -- The nodes end where a bracket closes or an edge comes.
  have hend {edges : List Edge} (hedges : ∀ e ∈ edges, PlainEdge e) (u : List Char) :
      EndsItems (", " ++ nodeText ·) PlainNode (Follows isEnd)
          ((String.join (edges.map (", " ++ edgeText ·))).toList ++ (">".toList ++ u)) ∧
        Follows (· != '(')
          ((String.join (edges.map (", " ++ edgeText ·))).toList ++ (">".toList ++ u)) := by
    cases edges with
    | nil => exact ⟨endsItems_behind (c := ',') rfl rfl rfl, rfl⟩
    | cons e edges =>
        refine ⟨⟨?_, ?_⟩, ?_⟩
        · simp; rfl
        · intro n v hn hv hsame
          simp only [String.toList_append, String.toList_join, List.map_cons, List.flatMap_cons,
            List.append_assoc] at hsame
          have hlead := lead_node hn.toPlainlyNamed hv
          rw [List.append_cancel_left hsame,
            lead_edge (hedges e List.mem_cons_self).toPlainlyNamed] at hlead
          cases hlead
        · simp
  have hnodes : Shows (fun nodes => commas (nodes.map nodeText)) (List.map id)
      (fun nodes => ∀ n ∈ nodes, PlainNode n)
      (fun t => EndsItems (", " ++ nodeText ·) PlainNode (Follows isEnd) t ∧
        Follows (· != '(') t) p.nodes := by
    refine shows_intercalate (fun _ => rfl) (fun t ht => ht.1) ?_ fun n hn => ⟨h.nodes n hn, ?_⟩
    · rintro t n s ⟨-, ht⟩ hn - rfl
      rw [toList_nodeText hn.toPlainlyNamed] at ht
      cases ht
    · exact (shows_node (h.nodes n hn) (hchildren.1 n hn)).mono (fun _ => id) fun _ _ => trivial
  have hedges : Shows (fun edges => String.join (edges.map (", " ++ edgeText ·))) (List.map id)
      (fun edges => ∀ e ∈ edges, PlainEdge e)
      (EndsItems (", " ++ edgeText ·) PlainEdge (Follows isEnd)) p.edges :=
    shows_joinBehind ", " (fun _ => rfl) fun e he => ⟨h.edges e he,
      (shows_edge (h.edges e he) (hchildren.2 e he)).mono (fun _ => id) fun _ _ => trivial⟩
  rw [toList_pathText, toList_pathText] at heq
  obtain ⟨hvar, heq⟩ := (shows_pathVar h.var).read heq hq.var rfl rfl
  obtain ⟨hnode, heq⟩ := hnodes.read (List.append_cancel_left heq) hq.nodes (hend h.edges s)
    (hend hq.edges t)
  have hstop (u : List Char) :
      EndsItems (", " ++ edgeText ·) PlainEdge (Follows isEnd) (">".toList ++ u) :=
    endsItems_behind (c := ',') rfl rfl rfl
  obtain ⟨hedge, heq⟩ := hedges.read heq hq.edges (hstop s) (hstop t)
  refine ⟨?_, List.append_cancel_left heq⟩
  obtain ⟨nodes, edges, var⟩ := p
  obtain ⟨nodes', edges', var'⟩ := q
  rw [List.map_id, List.map_id] at hnode hedge
  dsimp only [id] at hvar hnode hedge
  subst hvar hnode hedge
  rfl

theorem continuesNode_nodeText {n : Node} (h : n.PlainlyNamed) (s : List Char) :
    ∃ u, (nodeText n).toList ++ s = '(' :: u ∧ continuesNode (afterName u) = true := by
  obtain ⟨u, hu, hafter⟩ := afterName_nodeText h s
  refine ⟨u, hu, ?_⟩
  rcases hafter with hmark | ⟨v, hv⟩ | hlast
  · obtain ⟨c, v, hv, hc⟩ := hmark.exists_cons
    have hcs : c = '?' ∨ c = '#' ∨ c = ':' := by simpa using hc
    rcases hcs with rfl | rfl | rfl <;> rw [hv] <;> rfl
  · rw [hv]
    rfl
  · rw [hlast]
    rfl

theorem lead_path {p : Path} (h : PlainPath p) (s : List Char) :
    leadOf ((pathText p).toList ++ s) = .path := by
  rw [toList_pathText]
  cases hvar : p.var with
  | some name =>
      generalize "<".toList ++ _ = u
      have htext : (pathVar (some name)).toList ++ u = name.toList ++ (" = ".toList ++ u) := by
        simp [pathVar]
      have hmark : Follows isMark (" = ".toList ++ u) := rfl
      obtain ⟨c, -, hlead⟩ := leadOf_plain (h.var name hvar) hmark
      rw [htext, hlead]
      rfl
  | none =>
      obtain ⟨n, nodes, hnodes⟩ := List.exists_cons_of_ne_nil h.nonempty
      have hn : n.PlainlyNamed := (h.nodes n (hnodes ▸ List.mem_cons_self)).toPlainlyNamed
      rw [hnodes, List.map_cons, commas, toList_intercalate_cons, List.append_assoc]
      obtain ⟨u, hu, hnode⟩ := continuesNode_nodeText hn
        ((String.join ((nodes.map nodeText).map (", " ++ ·))).toList ++
          ((String.join (p.edges.map (", " ++ edgeText ·))).toList ++ (">".toList ++ s)))
      rw [hu]
      change leadOfMark '<' ('(' :: u) = .path
      rw [leadOfMark_less, List.tail_cons, hnode]
      rfl

/-! ## Values -/

theorem plainNode_of_node {n : Node} (h : (node n).PlainlyNamed) : PlainNode n :=
  ⟨h.names, fun _ hv => h.child hv⟩

theorem plainEdge_of_edge {e : Edge} (h : (edge e).PlainlyNamed) : PlainEdge e :=
  ⟨h.names, fun _ hv => h.child hv⟩

theorem plainPath_of_path {p : Path} (h : (path p).PlainlyNamed) : PlainPath p := by
  have hnames : p.PlainlyNamed := h.names
  refine ⟨fun n hn => ⟨hnames.nodes n hn, fun v hv => h.child ?_⟩,
    fun e he => ⟨hnames.edges e he, fun v hv => h.child ?_⟩, hnames.var, hnames.nonempty⟩
  · exact List.mem_append_left _ (List.mem_flatMap.mpr ⟨n, hn, hv⟩)
  · exact List.mem_append_right _ (List.mem_flatMap.mpr ⟨e, he, hv⟩)

theorem plainEntries_of_map {entries : List (String × Value)} (h : (map entries).PlainlyNamed) :
    ∀ entry ∈ entries, PlainEntry entry :=
  fun entry hentry => ⟨h.names entry hentry, h.child (List.mem_map_of_mem hentry)⟩

/-- Null, a truth value or a whole number. -/
inductive IsAtom : Value → Prop
  | null : IsAtom null
  | bool (b : Bool) : IsAtom (bool b)
  | int (i : Int64) : IsAtom (int i)

theorem isAtom_of_lead {v : Value} (h : v.PlainlyNamed) (hlead : v.lead = .atom) : v.IsAtom := by
  cases v with
  | null => exact .null
  | bool b => exact .bool b
  | int i => exact .int i
  | float x => exact h.names.elim
  | _ => cases hlead

theorem text_null : null.text = "null" := by rw [text]

theorem text_bool (b : Bool) : (bool b).text = toString b := by rw [text]

theorem text_int (i : Int64) : (int i).text = toString i.toInt := by rw [text]

/-- An atom is a plain name that begins with a letter or a digit, or a minus sign and a number. -/
theorem IsAtom.text_cases {v : Value} (h : v.IsAtom) :
    isPlain v.text = true ∧ v.text.toList.head? ≠ some '$' ∨
      ∃ n : Nat, v.text = "-" ++ toString n := by
  cases h with
  | null =>
      rw [text_null]
      exact Or.inl (by decide)
  | bool b =>
      rw [text_bool]
      cases b <;> exact Or.inl (by decide)
  | int i =>
      rw [text_int]
      cases i.toInt with
      | ofNat n =>
          rw [toString_int_ofNat]
          refine Or.inl ⟨isPlain_toString_nat n, fun hhead => ?_⟩
          have hdigit := isDigit_of_mem (List.mem_of_head? hhead)
          cases hdigit
      | negSucc n => exact Or.inr ⟨n + 1, toString_int_negSucc n⟩

theorem lead_atom {v : Value} {s : List Char} (h : v.IsAtom) (hs : Follows isEnd s) :
    leadOf (v.text.toList ++ s) = .atom := by
  rcases h.text_cases with ⟨hplain, hhead⟩ | ⟨n, hn⟩
  · obtain ⟨c, hc, hlead⟩ := leadOf_plain hplain (hs.mono isMark_of_isEnd)
    rw [hlead, leadOfName_of_end hs, if_neg]
    rintro rfl
    exact hhead hc
  · have hdigit : Follows (· != '(') ((toString n).toList ++ s) :=
      (follows_plain (isPlain_toString_nat n) fun c => bne_of_not_isMark rfl).append s
    obtain ⟨c, u, hu, hc⟩ := hdigit.exists_cons
    rw [hn, String.toList_append, List.append_assoc, hu]
    change leadOfMark '-' (c :: u) = .atom
    rw [leadOfMark_minus, if_neg]
    simpa using hc

/-- Atoms have one text each. -/
theorem IsAtom.text_inj {v w : Value} (hv : v.IsAtom) (hw : w.IsAtom) (h : v.text = w.text) :
    v = w := by
  have hword {x : String} {i : Int64} {c : Char} (hc : c ∈ x.toList)
      (hletter : (c.isDigit || c == '-') = false) : x ≠ (Value.int i).text := by
    rintro rfl
    rw [text_int] at hc
    rw [isDigit_or_minus_of_mem hc] at hletter
    cases hletter
  have hnull (b : Bool) : "null" ≠ toString b := by cases b <;> decide
  have hbool (b : Bool) : ∃ c ∈ (toString b).toList, (c.isDigit || c == '-') = false := by
    cases b <;> exact ⟨'e', by decide, rfl⟩
  cases hv with
  | null =>
      rw [text_null] at h
      cases hw with
      | null => rfl
      | bool b => exact absurd (h.trans (text_bool b)) (hnull b)
      | int i => exact absurd h (hword (c := 'n') (by decide) rfl)
  | bool b =>
      obtain ⟨c, hc, hletter⟩ := hbool b
      rw [text_bool] at h
      cases hw with
      | null => exact absurd (h.trans text_null).symm (hnull b)
      | bool b' =>
          rw [text_bool] at h
          cases b <;> cases b' <;> first | rfl | exact absurd h (by decide)
      | int i => exact absurd h (hword hc hletter)
  | int i =>
      cases hw with
      | null => exact absurd (h.trans text_null).symm (hword (c := 'n') (by decide) rfl)
      | bool b =>
          obtain ⟨c, hc, hletter⟩ := hbool b
          exact absurd (h.trans (text_bool b)).symm (hword hc hletter)
      | int j =>
          rw [text_int, text_int] at h
          rw [Int64.toInt_inj.mp (toString_int_inj h)]

/-- An atom shows itself. -/
theorem shows_atom {v : Value} (h : v.IsAtom) : Shows text id IsAtom (Follows isEnd) v := by
  refine shows_of_kind (fun c => !isMark c || c == '-') ?_ (fun w hw => h.text_inj hw) ?_ h
  · intro w hw c hc
    rcases hw.text_cases with ⟨hplain, -⟩ | ⟨n, hn⟩
    · rw [(isPlain_iff.mp hplain).2 c hc]
      rfl
    · rw [hn, String.toList_append] at hc
      rcases List.mem_append.mp hc with hminus | hdigit
      · rw [List.mem_singleton.mp hminus]
        rfl
      · rw [(isPlain_iff.mp (isPlain_toString_nat n)).2 c hdigit]
        rfl
  · exact fun s hs => hs.mono (forall_isEnd _ (by decide))

theorem lead_text {v : Value} {s : List Char} (h : v.PlainlyNamed) (hs : Follows isEnd s) :
    leadOf (v.text.toList ++ s) = v.lead := by
  cases v with
  | null => exact lead_atom .null hs
  | bool b => exact lead_atom (.bool b) hs
  | int i => exact lead_atom (.int i) hs
  | float x => cases h.names
  | string x =>
      simp only [text, quote, String.toList_append, List.append_assoc]
      rfl
  | list items =>
      simp only [text, String.toList_append, List.append_assoc]
      rfl
  | map entries =>
      simp only [text, String.toList_append, List.append_assoc]
      rfl
  | node n => exact lead_node h.names hs
  | edge e => exact lead_edge h.names s
  | path p => exact lead_path (plainPath_of_path h) s

/-- A value begins with a mark that no node continues with, or with a name after which no node
continues. -/
theorem continuesNode_text {v : Value} (h : v.PlainlyNamed) (s : List Char) :
    continuesNode (afterName (v.text.toList ++ ',' :: s)) = false := by
  have hname {x : String} (hx : isPlain x = true) {u : List Char} (hu : Follows isMark u)
      (hnode : continuesNode u = false) : continuesNode (afterName (x.toList ++ u)) = false := by
    rw [afterName_plain hx hu, hnode]
  have hatom {v : Value} (hv : v.IsAtom) :
      continuesNode (afterName (v.text.toList ++ ',' :: s)) = false := by
    rcases hv.text_cases with ⟨hplain, -⟩ | ⟨n, hn⟩
    · exact hname hplain rfl rfl
    · rw [hn, String.toList_append]
      rfl
  cases v with
  | null => exact hatom .null
  | bool b => exact hatom (.bool b)
  | int i => exact hatom (.int i)
  | float x => exact h.names.elim
  | string x =>
      simp only [text, quote, String.toList_append, List.append_assoc]
      rfl
  | list items =>
      simp only [text, String.toList_append, List.append_assoc]
      rfl
  | map entries =>
      simp only [text, String.toList_append, List.append_assoc]
      rfl
  | node n =>
      rw [text, toList_nodeText h.names]
      rfl
  | edge e =>
      rw [text, toList_edgeText]
      rfl
  | path p =>
      rw [text, toList_pathText]
      cases hvar : p.var with
      | none => rfl
      | some name =>
          have hnames : p.PlainlyNamed := h.names
          simp only [pathVar, Option.isSome_some, if_true, Option.getD_some, String.toList_append,
            List.append_assoc]
          exact hname (hnames.var name hvar) rfl rfl

theorem texts_eq_map (items : List Value) : texts items = items.map text := by
  induction items with
  | nil => rfl
  | cons v items ih => rw [texts, ih, List.map_cons]

/-- No value begins with a closing bracket. -/
theorem follows_text {close : Char} (hclose : isEnd close = true) {v : Value} {s : List Char}
    (h : v.PlainlyNamed) (hs : Follows isEnd s) : Follows (· != close) (v.text.toList ++ s) := by
  have hlead := lead_text h hs
  cases htext : v.text.toList ++ s with
  | nil =>
      rw [List.append_eq_nil_iff] at htext
      rw [htext.2] at hs
      cases hs
  | cons c u =>
      rw [follows_cons, bne_iff_ne]
      rintro rfl
      rw [htext, leadOf_end hclose] at hlead
      exact v.lead_ne_call hlead.symm

theorem shows_items {items : List Value} (close : Char) (hclose : isEnd close = true ∧ close ≠ ',')
    (h : ∀ v ∈ items, v.PlainlyNamed ∧ v.Shown) :
    Shows (fun items => commas (texts items)) id (fun items => ∀ v ∈ items, v.PlainlyNamed)
      (Follows (· == close)) items := by
  have hitems := shows_commas isEnd _ ⟨rfl, hclose⟩ (fun v s hv hs => follows_text hclose.1 hv hs) h
  simp only [texts_eq_map]
  exact hitems.mono (fun _ => by simp) fun _ => id

/-- **Values can be read off.** A value with plain names is told from every other by its text, and
so is where it ends. -/
theorem shows_text {v : Value} (h : v.PlainlyNamed) : v.Shown := by
  induction h with
  | @intro v hnames hchildren ih =>
      have h : v.PlainlyNamed := .intro hnames hchildren
      intro w s t hw hs ht heq
      have hlead : v.lead = w.lead := by
        rw [← lead_text h hs, heq, lead_text hw ht]
      have hatom (hv : v.IsAtom) (hkind : Lead.atom = w.lead) : v = w ∧ s = t :=
        (shows_atom hv).read heq (isAtom_of_lead hw hkind.symm) hs ht
      cases v with
      | null => exact hatom .null hlead
      | bool b => exact hatom (.bool b) hlead
      | int i => exact hatom (.int i) hlead
      | float x => cases hnames
      | string x =>
          cases w with
          | string y =>
              simp only [text] at heq
              obtain ⟨hsame, heq⟩ := (shows_quote x).read heq trivial trivial trivial
              exact ⟨congrArg string hsame, heq⟩
          | _ => cases hlead
      | list items =>
          cases w with
          | list items' =>
              simp only [text, String.toList_append, List.append_assoc] at heq
              have hitems := shows_items ']' (by decide) fun v (hv : v ∈ items) =>
                ⟨h.child hv, ih v hv⟩
              obtain ⟨hsame, heq⟩ := hitems.read (List.append_cancel_left heq)
                (fun v hv => hw.child hv) rfl rfl
              exact ⟨congrArg list hsame, List.append_cancel_left heq⟩
          | _ => cases hlead
      | map entries =>
          cases w with
          | map entries' =>
              simp only [text, String.toList_append, List.append_assoc] at heq
              obtain ⟨hsame, heq⟩ := (shows_entries (plainEntries_of_map h) ih).read
                (List.append_cancel_left heq) (plainEntries_of_map hw) rfl rfl
              exact ⟨congrArg map hsame, List.append_cancel_left heq⟩
          | _ => cases hlead
      | node n =>
          cases w with
          | node m =>
              simp only [text] at heq
              obtain ⟨hsame, heq⟩ := (shows_node (plainNode_of_node h) ih).read heq
                (plainNode_of_node hw) trivial trivial
              exact ⟨congrArg node hsame, heq⟩
          | _ => cases hlead
      | edge e =>
          cases w with
          | edge d =>
              simp only [text] at heq
              obtain ⟨hsame, heq⟩ := (shows_edge (plainEdge_of_edge h) ih).read heq
                (plainEdge_of_edge hw) trivial trivial
              exact ⟨congrArg edge hsame, heq⟩
          | _ => cases hlead
      | path p =>
          cases w with
          | path q =>
              simp only [text] at heq
              obtain ⟨hsame, heq⟩ := (shows_path (plainPath_of_path h) ih).read heq
                (plainPath_of_path hw) trivial trivial
              exact ⟨congrArg path hsame, heq⟩
          | _ => cases hlead

end Value

end QueryPlan
