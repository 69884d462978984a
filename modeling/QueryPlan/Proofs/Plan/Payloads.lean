import QueryPlan.Plan.Text
import QueryPlan.Proofs.Expr.Legible

/-!
# Payloads that can be read off

The text of an operator's payload shows the payload, up to the types that expressions record, if the
names that stand in it unquoted are plain. The titles of aggregates may hold more than a name, since
they are often the text of an expression; they must not look like the end of a title. Of an entity
the text shows the number, so it is enough that the catalog has the entity under that number.
-/

namespace QueryPlan

open Text

/-! ## Words -/

theorem Model.shows_text : ∀ m : Model, Shows text id (fun _ => True) (Follows isMark) m :=
  shows_anyWord [relational, document, graph] (by decide) (by decide) (by rintro ⟨⟩ <;> decide)

theorem QueryKind.shows_text : ∀ k : QueryKind, Shows text id (fun _ => True) (Follows isMark) k :=
  shows_anyWord [select, insert, update, delete] (by decide) (by decide) (by rintro ⟨⟩ <;> decide)

theorem Write.shows_text : ∀ w : Write, Shows text id (fun _ => True) (Follows isMark) w :=
  shows_anyWord [insert, update, delete] (by decide) (by decide) (by rintro ⟨⟩ <;> decide)

theorem SortOrder.shows_text : ∀ o : SortOrder, Shows text id (fun _ => True) (Follows isMark) o :=
  shows_anyWord [ascending, descending] (by decide) (by decide) (by rintro ⟨⟩ <;> decide)

theorem AggregateFunction.shows_text :
    ∀ f : AggregateFunction, Shows text id (fun _ => True) (Follows isMark) f :=
  shows_anyWord [count, sum, avg, min, max, collect] (by decide) (by decide)
    (by rintro ⟨⟩ <;> decide)

namespace Ty

/-- The types other than those of lists. -/
def simple : List Ty :=
  [any, null, bool, int64, float64, string, map, document, node, edge, path, graph]

theorem mem_simple_or_list (t : Ty) : t ∈ simple ∨ ∃ element, t = list element := by
  cases t with
  | list element => exact Or.inr ⟨element, rfl⟩
  | _ => exact Or.inl (by decide)

theorem shows_text (t : Ty) : Shows text id (fun _ => True) (Follows isEnd) t := by
  have hplain : ∀ t ∈ simple, isPlain t.text = true ∧ t.text ≠ "list" := by decide
  have hlist {u : Ty} (hu : u ∈ simple) {element : Ty} {v w : List Char} (hv : Follows isEnd v) :
      u.text.toList ++ v ≠ (list element).text.toList ++ w := by
    intro heq
    simp only [text, String.toList_append, List.append_assoc] at heq
    have hname : "list<".toList = "list".toList ++ "<".toList := rfl
    rw [hname, List.append_assoc] at heq
    obtain ⟨hword, -⟩ := (shows_plain (hplain u hu).1).read heq rfl (hv.mono isMark_of_isEnd) rfl
    exact (hplain u hu).2 hword
  induction t with
  | list element ih =>
      intro u s t _ hs ht heq
      rcases u.mem_simple_or_list with hu | ⟨element', rfl⟩
      · exact absurd heq.symm (hlist hu ht)
      · simp only [text, String.toList_append, List.append_assoc] at heq
        obtain ⟨hsame, heq⟩ := ih.read (List.append_cancel_left heq) trivial rfl rfl
        exact ⟨congrArg list hsame, List.append_cancel_left heq⟩
  | _ =>
      intro u s t _ hs ht heq
      rcases u.mem_simple_or_list with hu | ⟨element', rfl⟩
      · exact (shows_word simple (by decide) (by decide) (by decide)).read heq hu
          (hs.mono isMark_of_isEnd) (ht.mono isMark_of_isEnd)
      · exact absurd heq (hlist (by decide) hs)

end Ty

/-! ## Entities and namespaces -/

theorem EntityId.shows_text (id : EntityId) :
    Shows text (fun id => id) (fun _ => True) (Follows (!Char.isDigit ·)) id := by
  intro other s t _ hs ht heq
  obtain ⟨hsame, heq⟩ := ((shows_word64 id.index).behind "e").read (b := other.index) heq trivial
    hs ht
  exact ⟨congrArg EntityId.mk hsame, heq⟩

theorem NamespaceId.shows_text (id : NamespaceId) :
    Shows text (fun id => id) (fun _ => True) (Follows (!Char.isDigit ·)) id := by
  intro other s t _ hs ht heq
  obtain ⟨hsame, heq⟩ := ((shows_word64 id.index).behind "ns").read (b := other.index) heq trivial
    hs ht
  exact ⟨congrArg NamespaceId.mk hsame, heq⟩

/-- The entity is the one that the catalog has under its number. -/
def Entity.KnownTo (catalog : Catalog) (e : Entity) : Prop := catalog.entity? e.id = some e

/-- An entity of the catalog shows itself, whatever it is called. -/
theorem Entity.shows_text {catalog : Catalog} {e : Entity} (h : e.KnownTo catalog) :
    Shows text (fun e => e) (KnownTo catalog) (fun _ => True) e := by
  intro other s t hother _ _ heq
  simp only [text, String.toList_append, List.append_assoc] at heq
  obtain ⟨hid, heq⟩ := (EntityId.shows_text e.id).read heq trivial rfl rfl
  have hsame : e = other := by
    unfold KnownTo at h hother
    rw [← hid, h] at hother
    exact Option.some.inj hother
  subst hsame
  exact ⟨rfl, List.append_cancel_left (List.append_cancel_left heq)⟩

/-! ## Columns, bindings and targets -/

def Column.untyped (c : Column) : Column := { c with expr := c.expr.untyped }

def Binding.untyped (b : Binding) : Binding := { b with expr := b.expr.untyped }

/-- The expression can be read off, up to types. -/
structure Expr.Readable (e : Expr) : Prop where
  plain : e.PlainlyNamed
  typed : e.WellTyped

theorem Expr.Readable.shows {e : Expr} (h : e.Readable) :
    Shows text untyped Readable (Follows isEnd) e := by
  intro e' s t h' hs ht heq
  exact (shows_text h.plain h.typed).read heq ⟨h'.plain, h'.typed⟩ hs ht

theorem Column.shows_text {c : Column} (h : c.expr.Readable) :
    Shows text untyped (fun c => c.expr.Readable) (Follows isEnd) c := by
  intro d s t hd hs ht heq
  obtain ⟨name, e⟩ := c
  obtain ⟨name', e'⟩ := d
  cases name with
  | none =>
      cases name' with
      | none =>
          simp only [text, String.toList_append, List.append_assoc] at heq
          obtain ⟨hsame, heq⟩ := h.shows.read (List.append_cancel_left heq) hd hs ht
          exact ⟨congrArg (Column.mk none) hsame, heq⟩
      | some name' =>
          simp only [text, quote, String.toList_append, List.append_assoc] at heq
          simp at heq
  | some name =>
      cases name' with
      | none =>
          simp only [text, quote, String.toList_append, List.append_assoc] at heq
          simp at heq
      | some name' =>
          simp only [text, String.toList_append, List.append_assoc] at heq
          obtain ⟨hname, heq⟩ := (shows_quote name).read heq trivial trivial trivial
          obtain ⟨hsame, heq⟩ := h.shows.read (List.append_cancel_left heq) hd hs ht
          exact ⟨congrArg₂ (fun n e => Column.mk (some n) e) hname hsame, heq⟩

theorem Column.follows_text (c : Column) (s : List Char) :
    Follows (· != ')') (c.text.toList ++ s) := by
  obtain ⟨name, e⟩ := c
  cases name <;> simp [text, quote]

/-- The name is plain, and the expression can be read off. -/
structure Binding.Readable (b : Binding) : Prop where
  name : isPlain b.name = true
  expr : b.expr.Readable

theorem Binding.shows_text {b : Binding} (h : b.Readable) :
    Shows text untyped Readable (Follows isEnd) b := by
  intro d s t hd hs ht heq
  simp only [text, String.toList_append, List.append_assoc] at heq
  obtain ⟨hname, heq⟩ := (shows_plain h.name).read heq hd.name rfl rfl
  obtain ⟨hsame, heq⟩ := h.expr.shows.read (List.append_cancel_left heq) hd.expr hs ht
  exact ⟨congrArg₂ Binding.mk hname hsame, heq⟩

theorem Binding.follows_text {b : Binding} (h : b.Readable) (s : List Char) :
    Follows (· != ')') (b.text.toList ++ s) := by
  rw [text, String.append_assoc, String.toList_append, List.append_assoc]
  exact (follows_plain h.name fun c => bne_of_not_isMark rfl).append _

/-! ## Aggregates and sort keys -/

/-- A position of the input as it stands in texts. -/
def positionText (index : Nat) : String := s!"${index}"

theorem positionText_eq (index : Nat) : positionText index = "$" ++ toString index := rfl

theorem shows_position (index : Nat) :
    Shows positionText id (fun _ => True) (Follows (!Char.isDigit ·)) index :=
  (shows_nat index).behind "$"

/-- An aggregate's arguments as they stand in texts. -/
def argsText (args : List Nat) : String :=
  if args.isEmpty then "*" else commas (args.map positionText)

theorem argsText_cons (arg : Nat) (args : List Nat) :
    argsText (arg :: args) = commas ((arg :: args).map positionText) := rfl

theorem toList_commas_cons (x : String) (xs : List String) :
    (commas (x :: xs)).toList = x.toList ++ (String.join (xs.map (", " ++ ·))).toList :=
  toList_intercalate_cons _ _ _

theorem shows_args (args : List Nat) :
    Shows argsText id (fun _ => True) (Follows (· == ')')) args := by
  have hcommas : Shows (fun args : List Nat => commas (args.map positionText)) (List.map id)
      (fun args => ∀ arg ∈ args, True) (Follows (· == ')')) args := by
    refine shows_commas isEnd _ (by decide) ?_ fun arg _ => ⟨trivial, ?_⟩
    · intro arg s _ _
      simp [positionText_eq]
    · exact (shows_position arg).mono (fun _ => id) fun s hs => hs.mono (forall_isEnd _ (by decide))
  intro others s t _ hs ht heq
  cases args with
  | nil =>
      cases others with
      | nil => exact ⟨rfl, List.append_cancel_left heq⟩
      | cons arg others =>
          rw [argsText_cons, List.map_cons, toList_commas_cons, positionText_eq] at heq
          simp [argsText] at heq
  | cons arg args =>
      cases others with
      | nil =>
          rw [argsText_cons, List.map_cons, toList_commas_cons, positionText_eq] at heq
          simp [argsText] at heq
      | cons arg' others =>
          rw [argsText_cons, argsText_cons] at heq
          obtain ⟨hsame, heq⟩ := hcommas.read heq (fun _ _ => trivial) hs ht
          exact ⟨by simpa using hsame, heq⟩

theorem follows_args (args : List Nat) (s : List Char) :
    Follows (· != 'D') ((argsText args).toList ++ s) := by
  cases args with
  | nil => rfl
  | cons arg args =>
      rw [argsText_cons, List.map_cons, toList_commas_cons, positionText_eq]
      simp

theorem Aggregate.text_eq (a : Aggregate) : a.text =
    a.function.text ++ "(" ++ (if a.distinct then "DISTINCT " else "") ++ argsText a.args ++
      ") AS " ++ a.name := rfl

theorem Aggregate.shows_text {a : Aggregate} (h : isTitle a.name = true) :
    Shows text id (fun a => isTitle a.name = true) (Follows endsTitle) a := by
  intro b s t hb hs ht heq
  simp only [text_eq, String.toList_append, List.append_assoc] at heq
  obtain ⟨hfunction, heq⟩ := (AggregateFunction.shows_text a.function).read heq trivial rfl rfl
  obtain ⟨hdistinct, heq⟩ := (shows_flag "DISTINCT " 'D' rfl a.distinct).read
    (List.append_cancel_left heq) trivial (follows_args _ _) (follows_args _ _)
  obtain ⟨hargs, heq⟩ := (shows_args a.args).read heq trivial rfl rfl
  obtain ⟨hname, heq⟩ := (shows_title h).read (List.append_cancel_left heq) hb hs ht
  refine ⟨?_, heq⟩
  obtain ⟨function, args, distinct, name⟩ := a
  obtain ⟨function', args', distinct', name'⟩ := b
  dsimp only [id] at hfunction hdistinct hargs hname
  subst hfunction hdistinct hargs hname
  rfl

theorem Aggregate.follows_text (a : Aggregate) (s : List Char) :
    Follows (· != ']') (a.text.toList ++ s) := by
  simp only [text_eq, String.toList_append, List.append_assoc]
  cases a.function <;> rfl

theorem SortKey.shows_text (k : SortKey) : Shows text id (fun _ => True) (Follows isEnd) k := by
  intro k' s t _ hs ht heq
  have htext (k : SortKey) : k.text = positionText k.index ++ " " ++ k.order.text := rfl
  simp only [htext, String.toList_append, List.append_assoc] at heq
  obtain ⟨hindex, heq⟩ := (shows_position k.index).read heq trivial rfl rfl
  obtain ⟨horder, heq⟩ := (SortOrder.shows_text k.order).read (List.append_cancel_left heq) trivial
    (hs.mono isMark_of_isEnd) (ht.mono isMark_of_isEnd)
  exact ⟨congrArg₂ SortKey.mk hindex horder, heq⟩

/-! ## Rows -/

/-- A row as it stands in texts. -/
def rowText (row : List Value) : String := "(" ++ commas (row.map Value.text) ++ ")"

theorem shows_row {row : List Value} (h : ∀ v ∈ row, v.PlainlyNamed) :
    Shows rowText id (fun row => ∀ v ∈ row, v.PlainlyNamed) (fun _ => True) row := by
  intro row' s t h' _ _ heq
  simp only [rowText, String.toList_append, List.append_assoc] at heq
  have hitems := Value.shows_items ')' (by decide) fun v (hv : v ∈ row) =>
    ⟨h v hv, Value.shows_text (h v hv)⟩
  simp only [Value.texts_eq_map] at hitems
  obtain ⟨hsame, heq⟩ := hitems.read (List.append_cancel_left heq) h' rfl rfl
  exact ⟨hsame, List.append_cancel_left heq⟩

namespace LiteralRows

/-- All names in the rows are plain. Rows without columns stand in no text. -/
structure PlainlyNamed (v : LiteralRows) : Prop where
  nodes : ∀ n ∈ v.nodes, Value.PlainNode n
  edges : ∀ e ∈ v.edges, Value.PlainEdge e
  rows : ∀ row ∈ v.rows, ∀ v ∈ row, v.PlainlyNamed
  columns : v.columns = [] → v.rows = []

/-- The columns and rows as they stand in texts, if there are any columns. -/
def tableText (v : LiteralRows) : String :=
  if v.columns.isEmpty then ""
  else
    ", columns=" ++ Text.quoteList v.columns ++ ", rows=[" ++ commas (v.rows.map rowText) ++ "]"

theorem text_eq (v : LiteralRows) : v.text =
    "nodes=[" ++ commas (v.nodes.map Value.nodeText) ++ "], edges=[" ++
      commas (v.edges.map Value.edgeText) ++ "]" ++ v.tableText := rfl

theorem shows_table {v : LiteralRows} (h : v.PlainlyNamed) :
    Shows tableText (fun v => (v.columns, v.rows)) PlainlyNamed (Follows (· == ')')) v := by
  refine shows_optional ',' ([], []) (g := fun v => ", columns=" ++ Text.quoteList v.columns ++
    ", rows=[" ++ commas (v.rows.map rowText) ++ "]") ?_ ?_ ?_ h ?_
  · intro w hw
    cases hcolumns : w.columns with
    | nil => exact Or.inl ⟨by simp [tableText, hcolumns], by rw [hw.columns hcolumns]⟩
    | cons column columns => exact Or.inr (by simp [tableText, hcolumns])
  · intro w
    simp
  · exact fun s hs => hs.of_mark rfl
  · intro w s t hw hs ht heq
    have hrows : Shows (fun rows => commas (rows.map rowText)) (List.map id)
        (fun rows => ∀ row ∈ rows, ∀ v ∈ row, v.PlainlyNamed) (Follows (· == ']')) v.rows := by
      refine shows_commas isEnd _ (by decide) ?_ fun row hrow => ⟨h.rows row hrow, ?_⟩
      · intro row s _ _
        simp [rowText]
      · exact (shows_row (h.rows row hrow)).mono (fun _ => id) fun _ _ => trivial
    simp only [String.toList_append, List.append_assoc] at heq
    obtain ⟨hcolumns, heq⟩ := (shows_quoteList v.columns).read (List.append_cancel_left heq) trivial
      trivial trivial
    obtain ⟨hsame, heq⟩ := hrows.read (List.append_cancel_left heq) hw.rows rfl rfl
    exact ⟨Prod.ext hcolumns (by simpa using hsame), List.append_cancel_left heq⟩

theorem shows_text {v : LiteralRows} (h : v.PlainlyNamed) :
    Shows text id PlainlyNamed (Follows (· == ')')) v := by
  have hnodes : Shows (fun nodes => commas (nodes.map Value.nodeText)) (List.map id)
      (fun nodes => ∀ n ∈ nodes, Value.PlainNode n) (Follows (· == ']')) v.nodes := by
    refine shows_commas isEnd _ (by decide) ?_ fun n hn => ⟨h.nodes n hn, ?_⟩
    · intro n s hn _
      rw [Value.toList_nodeText hn.toPlainlyNamed]
      rfl
    · refine (Value.shows_node (h.nodes n hn) fun v hv => ?_).mono (fun _ => id) fun _ _ => trivial
      exact Value.shows_text ((h.nodes n hn).values v hv)
  have hedges : Shows (fun edges => commas (edges.map Value.edgeText)) (List.map id)
      (fun edges => ∀ e ∈ edges, Value.PlainEdge e) (Follows (· == ']')) v.edges := by
    refine shows_commas isEnd _ (by decide) ?_ fun e he => ⟨h.edges e he, ?_⟩
    · intro e s _ _
      rw [Value.toList_edgeText]
      rfl
    · refine (Value.shows_edge (h.edges e he) fun v hv => ?_).mono (fun _ => id) fun _ _ => trivial
      exact Value.shows_text ((h.edges e he).values v hv)
  intro w s t hw hs ht heq
  simp only [text_eq, String.toList_append, List.append_assoc] at heq
  obtain ⟨hnode, heq⟩ := hnodes.read (List.append_cancel_left heq) hw.nodes rfl rfl
  obtain ⟨hedge, heq⟩ := hedges.read (List.append_cancel_left heq) hw.edges rfl rfl
  obtain ⟨htable, heq⟩ := (shows_table h).read (List.append_cancel_left heq) hw hs ht
  refine ⟨?_, heq⟩
  obtain ⟨nodes, edges, rows, columns⟩ := v
  obtain ⟨nodes', edges', rows', columns'⟩ := w
  rw [List.map_id, List.map_id] at hnode hedge
  obtain ⟨hcolumns, hrows⟩ := Prod.mk.inj htable
  dsimp only at hnode hedge hcolumns hrows
  subst hnode hedge hcolumns hrows
  rfl

end LiteralRows

/-! ## Procedure calls -/

namespace ProcedureCall

def untyped (c : ProcedureCall) : ProcedureCall :=
  { c with arguments := c.arguments.map Expr.untyped }

/-- The procedure and the fields taken have plain names. If all fields are taken, none is named. -/
structure Readable (c : ProcedureCall) : Prop where
  procedure : isPlain c.procedure = true
  arguments : ∀ e ∈ c.arguments, e.Readable
  items : ∀ item ∈ c.yieldItems, isPlain item = true
  all : c.yieldAll = true → c.yieldItems = []

/-- The fields taken, as they stand in texts. -/
def yieldText (c : ProcedureCall) : String :=
  if c.yieldAll then " YIELD *"
  else if c.yieldItems.isEmpty then ""
  else " YIELD " ++ commas c.yieldItems

theorem text_eq (c : ProcedureCall) : c.text =
    c.home.text ++ " " ++ c.procedure ++ "(" ++ commas (c.arguments.map Expr.text) ++ ")" ++
      c.yieldText := rfl

theorem shows_yield {c : ProcedureCall} (h : c.Readable) :
    Shows yieldText (fun c => (c.yieldAll, c.yieldItems)) Readable (Follows (· == ')')) c := by
  refine shows_optional ' ' (false, []) (g := fun c =>
    " YIELD " ++ (if c.yieldAll then "*" else "") ++ commas (c.yieldItems.map id)) ?_ ?_ ?_ h ?_
  · intro d hd
    cases hall : d.yieldAll with
    | true => exact Or.inr (by simp [yieldText, hall, hd.all hall, commas])
    | false =>
        cases hitems : d.yieldItems with
        | nil => exact Or.inl ⟨by simp [yieldText, hall, hitems], rfl⟩
        | cons item items => exact Or.inr (by simp [yieldText, hall, hitems])
  · intro d
    simp
  · exact fun s hs => hs.of_mark rfl
  · intro d s t hd hs ht heq
    have hitems : Shows (fun items => commas (items.map id)) (List.map id)
        (fun items => ∀ item ∈ items, isPlain item = true) (Follows (· == ')')) c.yieldItems := by
      refine shows_commas isEnd _ (by decide) ?_ fun item hitem => ⟨h.items item hitem, ?_⟩
      · intro item s hitem _
        exact (follows_plain hitem fun c => bne_of_not_isMark rfl).append s
      · exact (shows_plain (h.items item hitem)).mono (fun _ => id) fun _ hs =>
          hs.mono isMark_of_isEnd
    have hstar {c : ProcedureCall} (hc : c.Readable) {u : List Char} (hu : Follows (· == ')') u) :
        Follows (· != '*') ((commas (c.yieldItems.map id)).toList ++ u) := by
      cases hcitems : c.yieldItems with
      | nil => exact hu.of_mark rfl
      | cons item items =>
          rw [List.map_cons, toList_commas_cons, List.append_assoc]
          refine (follows_plain (hc.items item ?_) fun c => bne_of_not_isMark rfl).append _
          rw [hcitems]
          exact List.mem_cons_self
    simp only [String.toList_append, List.append_assoc] at heq
    obtain ⟨hall, heq⟩ := (shows_flag "*" '*' rfl c.yieldAll).read (List.append_cancel_left heq)
      trivial (hstar h hs) (hstar hd ht)
    obtain ⟨hsame, heq⟩ := hitems.read heq hd.items hs ht
    exact ⟨Prod.ext hall (by simpa using hsame), heq⟩

theorem shows_text {c : ProcedureCall} (h : c.Readable) :
    Shows text untyped Readable (Follows (· == ')')) c := by
  have harguments : Shows (fun args => commas (args.map Expr.text)) (List.map Expr.untyped)
      (fun args => ∀ e ∈ args, e.Readable) (Follows (· == ')')) c.arguments := by
    refine shows_commas isEnd _ (by decide) ?_ fun e he => ⟨h.arguments e he, ?_⟩
    · exact fun e s he hs => Expr.follows_text he.plain hs
    · exact (h.arguments e he).shows
  intro d s t hd hs ht heq
  simp only [text_eq, String.toList_append, List.append_assoc] at heq
  obtain ⟨hhome, heq⟩ := (NamespaceId.shows_text c.home).read heq trivial rfl rfl
  obtain ⟨hprocedure, heq⟩ := (shows_plain h.procedure).read (List.append_cancel_left heq)
    hd.procedure rfl rfl
  obtain ⟨hsame, heq⟩ := harguments.read (List.append_cancel_left heq) hd.arguments rfl rfl
  obtain ⟨hyield, heq⟩ := (shows_yield h).read (List.append_cancel_left heq) hd hs ht
  refine ⟨?_, heq⟩
  obtain ⟨home, procedure, arguments, yieldAll, yieldItems⟩ := c
  obtain ⟨home', procedure', arguments', yieldAll', yieldItems'⟩ := d
  obtain ⟨hall, hitems⟩ := Prod.mk.inj hyield
  dsimp only [id] at hhome hprocedure hsame hall hitems
  subst hhome hprocedure hall hitems
  exact congrArg (ProcedureCall.mk home procedure · yieldAll yieldItems) hsame

end ProcedureCall

/-! ## Changes of model -/

theorem Conversion.shows_text (c : Conversion) :
    Shows text id (fun _ => True) (fun _ => True) c := by
  have horder : Shows (fun order => commas (order.map Ty.text)) (List.map id)
      (fun order => ∀ ty ∈ order, True) (Follows (· == ']')) c.order := by
    refine shows_commas isEnd _ (by decide) ?_ fun ty _ => ⟨trivial, ty.shows_text⟩
    intro ty s _ _
    cases ty <;> simp [Ty.text]
  intro d s t _ _ _ heq
  simp only [text, String.toList_append, List.append_assoc] at heq
  obtain ⟨hsource, heq⟩ := (Model.shows_text c.source).read heq trivial rfl rfl
  obtain ⟨htarget, heq⟩ := (Model.shows_text c.target).read (List.append_cancel_left heq) trivial
    rfl rfl
  obtain ⟨hoperation, heq⟩ := (QueryKind.shows_text c.operation).read (List.append_cancel_left heq)
    trivial rfl rfl
  obtain ⟨hsame, heq⟩ := horder.read (List.append_cancel_left heq) (fun _ _ => trivial) rfl rfl
  obtain ⟨hnames, heq⟩ := (shows_quoteList c.names).read (List.append_cancel_left heq) trivial
    trivial trivial
  refine ⟨?_, heq⟩
  obtain ⟨order, operation, source, target, names⟩ := c
  obtain ⟨order', operation', source', target', names'⟩ := d
  rw [List.map_id, List.map_id] at hsame
  dsimp only [id] at hsource htarget hoperation hsame hnames
  subst hsource htarget hoperation hsame hnames
  rfl

/-! ## Schemas -/

theorem Field.shows_text {f : Field} (h : isTitle f.name = true) :
    Shows text id (fun f => isTitle f.name = true) (Follows isEnd) f := by
  intro g s t hg hs ht heq
  simp only [text, String.toList_append, List.append_assoc] at heq
  obtain ⟨hname, heq⟩ := (shows_title h).read heq hg rfl rfl
  obtain ⟨hty, heq⟩ := f.ty.shows_text.read (List.append_cancel_left heq) trivial hs ht
  exact ⟨congrArg₂ Field.mk hname hty, heq⟩

/-- A schema with titles for names shows itself, whatever comes next. -/
theorem Schema.shows_text {schema : Schema} (h : ∀ f ∈ schema, isTitle f.name = true) :
    Shows text id (fun schema => ∀ f ∈ schema, isTitle f.name = true) (fun _ => True) schema := by
  have hfields : Shows (fun fields : List Field => commas (fields.map Field.text)) (List.map id)
      (fun fields => ∀ f ∈ fields, isTitle f.name = true) (Follows (· == ']')) schema := by
    refine shows_commas isEnd _ (by decide) ?_ fun f hf => ⟨h f hf, Field.shows_text (h f hf)⟩
    intro f s hf _
    simp only [Field.text, String.toList_append, List.append_assoc]
    cases hname : f.name.toList with
    | nil => rfl
    | cons c cs =>
        rw [isTitle, hname, List.all_cons, Bool.and_eq_true] at hf
        rw [List.cons_append, follows_cons, bne_iff_ne]
        rintro rfl
        exact absurd hf.1 (by decide)
  intro schema' s t h' _ _ heq
  simp only [text, String.toList_append, List.append_assoc] at heq
  obtain ⟨hsame, heq⟩ := hfields.read (List.append_cancel_left heq) h' rfl rfl
  exact ⟨by simpa using hsame, List.append_cancel_left heq⟩

end QueryPlan
