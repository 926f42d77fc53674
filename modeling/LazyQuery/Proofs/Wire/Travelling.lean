import LazyQuery.Proofs.Wire.Carrying
import LazyQuery.Proofs.Wire.Requests

/-! Expressions and plans that a message carries unchanged. Each is one if its parts are: there is
room for its node, and the node is read as what was written. -/
namespace LazyQuery
open Wire

theorem Datum.Carried.delivered? {d : Datum} (h : d.Carried) : d.delivered? = some d := by
  obtain ⟨i, hi, -, hd⟩ := h
  rw [Datum.delivered?, hi, Outcome.toOption_ok, Option.bind_some, hd, Outcome.toOption_ok]

/-- There is room for the expression in a message, and one carries it unchanged. -/
structure Expr.Carried (e : Expr) : Prop where
  item : ∃ i, exprItem e = .ok i ∧ i.fits = true
  delivered : e.delivered? = some e

/-- There is room for the plan in a message, and one carries it unchanged. -/
structure Plan.Carried (p : Plan) : Prop where
  item : ∃ i, planItem p = .ok i ∧ i.fits = true
  delivered : p.delivered? = some p

namespace Wire

section fits

theorem fits_names : ∀ n ∈ NodeShape.request :: (NodeShape.exprs ++ NodeShape.plans),
    (textItem n.tag).fits = true ∧ (textItem n.kind).fits = true ∧
      (∀ m ∈ n.members, (textItem m.name).fits = true) ∧ n.members.length < 8 := by
  decide +kernel

theorem entriesFit_iff {es : List (Item × Item)} :
    entriesFit es = true ↔ ∀ e ∈ es, e.1.fits = true ∧ e.2.fits = true := by
  induction es with
  | nil => simp [entriesFit]
  | cons e es ih => simp [entriesFit, ih]

theorem fits_node (n : NodeShape)
    (hn : n ∈ NodeShape.request :: (NodeShape.exprs ++ NodeShape.plans))
    {ms : List (String × Item)} (hnames : ms.map (·.1) = n.members.map (·.name)) :
    (node n.tag n.kind ms).fits = true ↔ ∀ m ∈ ms, m.2.fits = true := by
  obtain ⟨ht, hk, hm, hl⟩ := fits_names n hn
  have hlen : ms.length = n.members.length := by simpa using congrArg List.length hnames
  have hroom : ms.length + 1 < sizeLimit := by
    rw [hlen, sizeLimit]
    omega
  have hname : ∀ m ∈ ms, (textItem m.1).fits = true := by
    intro m he
    have hmem : m.1 ∈ n.members.map (·.name) := hnames ▸ List.mem_map_of_mem he
    obtain ⟨member, hmember, hme⟩ := List.mem_map.mp hmem
    rw [← hme]
    exact hm member hmember
  rw [node, Item.fits, Bool.and_eq_true, entriesFit_iff, List.length_cons, List.length_map,
    decide_eq_true_eq, and_iff_right hroom, List.forall_mem_cons, and_iff_right ⟨ht, hk⟩,
    List.forall_mem_map]
  exact forall₂_congr fun m he => and_iff_right (hname m he)

theorem mem_exprs {n : NodeShape} (h : n ∈ NodeShape.exprs) :
    n ∈ NodeShape.request :: (NodeShape.exprs ++ NodeShape.plans) :=
  List.mem_cons_of_mem _ (List.mem_append_left _ h)

theorem mem_plans {n : NodeShape} (h : n ∈ NodeShape.plans) :
    n ∈ NodeShape.request :: (NodeShape.exprs ++ NodeShape.plans) :=
  List.mem_cons_of_mem _ (List.mem_append_right _ h)

theorem fits_int {i : Int} : (Item.int i).fits = true ↔ Held i := by
  rw [Item.fits, Bool.and_eq_true, decide_eq_true_iff, decide_eq_true_iff, Held]

theorem fits_request {p : Item} :
    (node "action" "Collect" [("plan", p)]).fits = true ↔ p.fits = true :=
  (fits_node NodeShape.request (List.mem_cons_self ..) rfl).trans (by simp)

section nodes
variable {i j : Item} {is js : List Item} {name : String} {s : Schema} {t : DataType}

theorem fits_column : (exprNode "Column" [("index", i)]).fits = true ↔ i.fits = true :=
  (fits_node ⟨"kind", "Column", [⟨"index", .int, none⟩]⟩ (by simp [NodeShape.exprs])
    rfl).trans (by simp)

theorem fits_literal :
    (exprNode "Literal" [("value", i), ("dtype", .type t)]).fits = true ↔ i.fits = true :=
  (fits_node NodeShape.literal (by simp [NodeShape.exprs]) rfl).trans (by simp [Item.fits])

theorem fits_wildcard : (exprNode "Wildcard" []).fits = true :=
  (fits_node ⟨"kind", "Wildcard", []⟩ (by simp [NodeShape.exprs]) rfl).mpr nofun

theorem fits_call :
    (exprNode "AggregateFunction"
      [("name", textItem name), ("args", .list is), ("return_type", .type t)]).fits = true ↔
        (textItem name).fits = true ∧ is.length < sizeLimit ∧ allFit is = true :=
  (fits_node ⟨"kind", "AggregateFunction",
      [⟨"name", .text, none⟩, ⟨"args", .list (.node .expr), none⟩,
        ⟨"return_type", .type, none⟩]⟩
    (by simp [NodeShape.exprs]) rfl).trans (by simp [Item.fits])

theorem fits_binary :
    (exprNode "BinaryExpr" [("left", i), ("op", textItem name), ("right", j)]).fits = true ↔
      i.fits = true ∧ (textItem name).fits = true ∧ j.fits = true :=
  (fits_node ⟨"kind", "BinaryExpr",
      [⟨"left", .node .expr, none⟩, ⟨"op", .text, none⟩,
        ⟨"right", .node .expr, none⟩]⟩
    (by simp [NodeShape.exprs]) rfl).trans (by simp)

theorem fits_over {kind : String} (hn : ⟨"kind", kind, [NodeShape.inner]⟩ ∈ NodeShape.exprs) :
    (exprNode kind [("expr", i)]).fits = true ↔ i.fits = true :=
  (fits_node ⟨"kind", kind, [NodeShape.inner]⟩ (mem_exprs hn) rfl).trans (by simp)

theorem fits_cast :
    (exprNode "Cast" [("expr", i), ("dtype", .type t)]).fits = true ↔ i.fits = true :=
  (fits_node ⟨"kind", "Cast", [NodeShape.inner, ⟨"dtype", .type, none⟩]⟩
    (by simp [NodeShape.exprs])
    rfl).trans (by simp [Item.fits])

theorem fits_alias : (exprNode "Alias" [("expr", i), ("name", textItem name)]).fits = true ↔
    i.fits = true ∧ (textItem name).fits = true :=
  (fits_node ⟨"kind", "Alias", [NodeShape.inner, ⟨"name", .text, none⟩]⟩
    (by simp [NodeShape.exprs])
    rfl).trans (by simp)

theorem fits_empty : (planNode "EmptyRelation" [("schema", .schema s)]).fits = true :=
  (fits_node ⟨"node", "EmptyRelation", [NodeShape.schema]⟩
    (mem_plans (by simp [NodeShape.plans]))
    rfl).mpr (by simp [Item.fits])

theorem fits_memory {bs : List Batch} :
    (planNode "MemoryScan" [("batches", .list (bs.map .batch)), ("schema", .schema s)]).fits =
      true ↔
      bs.length < sizeLimit := by
  have hall : allFit (bs.map .batch) = true := by
    induction bs with
    | nil => rfl
    | cons b bs ih => exact ih
  exact (fits_node ⟨"node", "MemoryScan",
    [⟨"batches", .list .batch, none⟩, NodeShape.schema]⟩
    (mem_plans (by simp [NodeShape.plans])) rfl).trans (by simp [Item.fits, hall])

theorem fits_file {scan : FileScan} :
    (planNode "FileScan"
      [("path", textItem scan.path), ("file_type", textItem scan.format),
        ("schema", .schema scan.schema), ("projected_schema", .schema scan.projected),
        ("projection", i), ("has_header", .bool scan.hasHeader),
        ("delimiter", textItem scan.delimiter)]).fits = true ↔
      (textItem scan.path).fits = true ∧ (textItem scan.format).fits = true ∧ i.fits = true ∧
        (textItem scan.delimiter).fits = true :=
  (fits_node ⟨"node", "FileScan",
      [⟨"path", .text, none⟩, ⟨"file_type", .text, none⟩, NodeShape.schema,
        ⟨"projected_schema", .schema, none⟩, ⟨"projection", .listOrNull .int, some .null⟩,
        ⟨"has_header", .bool, some (.bool true)⟩, ⟨"delimiter", .text, some (.text ",")⟩]⟩
    (mem_plans (by simp [NodeShape.plans])) rfl).trans (by simp [Item.fits])

theorem fits_projection :
    (planNode "Projection" [("expr", .list is), ("input", i), ("schema", .schema s)]).fits =
      true ↔
      is.length < sizeLimit ∧ allFit is = true ∧ i.fits = true :=
  (fits_node ⟨"node", "Projection",
      [⟨"expr", .list (.node .expr), none⟩, NodeShape.input, NodeShape.schema]⟩
    (mem_plans (by simp [NodeShape.plans])) rfl).trans (by simp [Item.fits, and_assoc])

theorem fits_selection :
    (planNode "Selection" [("expr", i), ("input", j)]).fits = true ↔ i.fits = true ∧
    j.fits = true :=
  (fits_node ⟨"node", "Selection", [NodeShape.inner, NodeShape.input]⟩
    (mem_plans (by simp [NodeShape.plans])) rfl).trans (by simp)

theorem fits_limit :
    (planNode "Limit" [("expr", i), ("input", j), ("schema", .schema s)]).fits = true ↔
      i.fits = true ∧ j.fits = true :=
  (fits_node ⟨"node", "Limit", [⟨"expr", .node .literal, none⟩, NodeShape.input,
    NodeShape.schema]⟩
    (mem_plans (by simp [NodeShape.plans])) rfl).trans (by simp [Item.fits])

theorem fits_grouping :
    (planNode "Aggregate" [("input", i), ("group_expr", .list is), ("aggr_expr", .list js),
      ("schema", .schema s)]).fits = true ↔
        i.fits = true ∧ (is.length < sizeLimit ∧ allFit is = true) ∧
          js.length < sizeLimit ∧ allFit js = true :=
  (fits_node ⟨"node", "Aggregate",
    [NodeShape.input, ⟨"group_expr", .list (.node .expr), none⟩,
      ⟨"aggr_expr", .list (.node .expr), none⟩, NodeShape.schema]⟩
    (mem_plans (by simp [NodeShape.plans])) rfl).trans (by simp [Item.fits])

end nodes

end fits

section exprs
variable {e : Expr}

theorem carried_column {i : Int} (h : Held i) : (Expr.column i).Carried where
  item := by
    refine ⟨exprNode "Column" [("index", .int i)], ?_, ?_⟩
    · rw [exprItem, intItem_ok h]
      rfl
    · exact fits_column.mpr (fits_int.mpr h)
  delivered := if_pos h

theorem carried_literal {v : Datum} (t : DataType)
    (h : v.Carried) : (Expr.literal v t).Carried where
  item := by
    obtain ⟨i, hi, hf, -⟩ := h
    refine ⟨exprNode "Literal" [("value", i), ("dtype", .type t)], ?_, ?_⟩
    · rw [exprItem, literalItem, hi]
      rfl
    · exact fits_literal.mpr hf
  delivered := by
    rw [Expr.delivered?, h.delivered?]
    rfl

theorem carried_wildcard : Expr.wildcard.Carried where
  item := ⟨_, rfl, fits_wildcard⟩
  delivered := rfl

theorem carried_exprs {es : List Expr} (h : ∀ e ∈ es, e.Carried) :
    (∃ is, exprItems es = .ok is ∧ is.length = es.length ∧ allFit is = true) ∧
      Expr.allDelivered? es = some es := by
  induction es with
  | nil => exact ⟨⟨[], rfl, rfl, rfl⟩, rfl⟩
  | cons e es ih =>
    obtain ⟨⟨i, hi, hf⟩, hd⟩ := h e (List.mem_cons_self ..)
    obtain ⟨⟨is, his, hlen, hfs⟩, hds⟩ := ih fun e he => h e (List.mem_cons_of_mem _ he)
    refine ⟨⟨i :: is, ?_, ?_, Bool.and_eq_true_iff.mpr ⟨hf, hfs⟩⟩, ?_⟩
    · rw [exprItems, hi, his]
      rfl
    · rw [List.length_cons, List.length_cons, hlen]
    · rw [Expr.allDelivered?, hd, hds]
      rfl

theorem carried_aggregate {name : String} {args : List Expr} (t : DataType)
    (hname : (textItem name).fits = true) (hn : args.length < sizeLimit)
    (h : ∀ e ∈ args, e.Carried) : (Expr.aggregate name args t).Carried where
  item := by
    obtain ⟨⟨is, his, hlen, hfs⟩, -⟩ := carried_exprs h
    refine ⟨exprNode "AggregateFunction"
      [("name", textItem name), ("args", .list is), ("return_type", .type t)], ?_, ?_⟩
    · rw [exprItem, his]
      rfl
    · exact fits_call.mpr ⟨hname, hlen ▸ hn, hfs⟩
  delivered := by
    rw [Expr.delivered?, (carried_exprs h).2]
    rfl

theorem carried_binary {l r : Expr} {op : String} (hop : (textItem op).fits = true) (hl : l.Carried)
    (hr : r.Carried) : (Expr.binary l op r).Carried where
  item := by
    obtain ⟨i, hi, hfi⟩ := hl.item
    obtain ⟨j, hj, hfj⟩ := hr.item
    refine ⟨exprNode "BinaryExpr" [("left", i), ("op", textItem op), ("right", j)], ?_, ?_⟩
    · rw [exprItem, hi, hj]
      rfl
    · exact fits_binary.mpr ⟨hfi, hop, hfj⟩
  delivered := by
    rw [Expr.delivered?, hl.delivered, hr.delivered]
    rfl

theorem carried_cast (t : DataType) (h : e.Carried) : (Expr.cast e t).Carried where
  item := by
    obtain ⟨i, hi, hf⟩ := h.item
    refine ⟨exprNode "Cast" [("expr", i), ("dtype", .type t)], ?_, ?_⟩
    · rw [exprItem, hi]
      rfl
    · exact fits_cast.mpr hf
  delivered := by
    rw [Expr.delivered?, h.delivered]
    rfl

theorem carried_alias {name : String} (hname : (textItem name).fits = true) (h : e.Carried) :
    (Expr.alias e name).Carried where
  item := by
    obtain ⟨i, hi, hf⟩ := h.item
    refine ⟨exprNode "Alias" [("expr", i), ("name", textItem name)], ?_, ?_⟩
    · rw [exprItem, hi]
      rfl
    · exact fits_alias.mpr ⟨hf, hname⟩
  delivered := by
    rw [Expr.delivered?, h.delivered]
    rfl

end exprs

section plans
variable {p : Plan}

theorem carried_empty (s : Schema) : (Plan.empty s).Carried where
  item := ⟨_, rfl, fits_empty⟩
  delivered := rfl

theorem carried_memory {bs : List Batch} (s : Schema) (hn : bs.length < sizeLimit) :
    (Plan.memory bs s).Carried where
  item := ⟨_, rfl, fits_memory.mpr hn⟩
  delivered := rfl

theorem carried_positions {is : List Int} (h : ∀ i ∈ is, Held i) :
    is.mapM intItem = .ok (is.map .int) ∧ allFit (is.map .int) = true := by
  induction is with
  | nil => exact ⟨rfl, rfl⟩
  | cons i is ih =>
    obtain ⟨his, hfs⟩ := ih fun i hi => h i (List.mem_cons_of_mem _ hi)
    have hi := h i (List.mem_cons_self ..)
    refine ⟨?_, Bool.and_eq_true_iff.mpr ⟨fits_int.mpr hi, hfs⟩⟩
    rw [List.mapM_cons, intItem_ok hi, his]
    rfl

theorem carried_file {scan : FileScan} (hpath : (textItem scan.path).fits = true)
    (hformat : (textItem scan.format).fits = true)
    (hpositions : ∀ is, scan.projection = some is → is.length < sizeLimit ∧
      ∀ i ∈ is, Held i)
    (hdelimiter : (textItem scan.delimiter).fits = true) : (Plan.file scan).Carried where
  item := by
    have hprojection : ∃ i, positionsItem scan.projection = .ok i ∧ i.fits = true := by
      cases hp : scan.projection with
      | none => exact ⟨.null, rfl, rfl⟩
      | some is =>
        obtain ⟨hn, hi⟩ := hpositions is hp
        obtain ⟨his, hfs⟩ := carried_positions hi
        refine ⟨.list (is.map .int), ?_, by simp [Item.fits, hn, hfs]⟩
        rw [positionsItem, his]
        rfl
    obtain ⟨i, hi, hf⟩ := hprojection
    refine ⟨planNode "FileScan"
      [("path", textItem scan.path), ("file_type", textItem scan.format),
        ("schema", .schema scan.schema),
        ("projected_schema", .schema scan.projected), ("projection", i),
        ("has_header", .bool scan.hasHeader), ("delimiter", textItem scan.delimiter)], ?_, ?_⟩
    · rw [planItem, scanItem, hi]
      rfl
    · exact fits_file.mpr ⟨hpath, hformat, hf, hdelimiter⟩
  delivered := by
    refine if_pos ?_
    cases hp : scan.projection with
    | none => rfl
    | some is => simpa using (hpositions is hp).2

theorem carried_projection {es : List Expr} (s : Schema) (hn : es.length < sizeLimit)
    (he : ∀ e ∈ es, e.Carried) (h : p.Carried) : (Plan.projection es p s).Carried where
  item := by
    obtain ⟨⟨is, his, hlen, hfs⟩, -⟩ := carried_exprs he
    obtain ⟨i, hi, hf⟩ := h.item
    refine ⟨planNode "Projection" [("expr", .list is), ("input", i), ("schema", .schema s)], ?_,
      ?_⟩
    · rw [planItem, his, hi]
      rfl
    · exact fits_projection.mpr ⟨hlen ▸ hn, hfs, hf⟩
  delivered := by
    rw [Plan.delivered?, (carried_exprs he).2, h.delivered]
    rfl

theorem carried_selection {e : Expr} (he : e.Carried) (h : p.Carried) :
    (Plan.selection e p).Carried where
  item := by
    obtain ⟨i, hi, hfi⟩ := he.item
    obtain ⟨j, hj, hfj⟩ := h.item
    refine ⟨planNode "Selection" [("expr", i), ("input", j)], ?_, ?_⟩
    · rw [planItem, hi, hj]
      rfl
    · exact fits_selection.mpr ⟨hfi, hfj⟩
  delivered := by
    rw [Plan.delivered?, he.delivered, h.delivered]
    rfl

theorem carried_limit {v : Datum} (t : DataType) (s : Schema) (hv : v.Carried) (h : p.Carried) :
    (Plan.limit (.literal v t) p s).Carried where
  item := by
    obtain ⟨i, hi, hfi⟩ := (carried_literal t hv).item
    obtain ⟨j, hj, hfj⟩ := h.item
    refine ⟨planNode "Limit" [("expr", i), ("input", j), ("schema", .schema s)], ?_, ?_⟩
    · rw [planItem, hi, hj]
      rfl
    · exact fits_limit.mpr ⟨hfi, hfj⟩
  delivered := by
    have hl : (Expr.literal v t).isLiteral = true := rfl
    rw [Plan.delivered?, if_pos hl, (carried_literal t hv).delivered, h.delivered]
    rfl

theorem carried_grouping {gs as : List Expr} (s : Schema) (hg : gs.length < sizeLimit)
    (ha : as.length < sizeLimit) (hgs : ∀ e ∈ gs, e.Carried) (has : ∀ e ∈ as, e.Carried)
    (h : p.Carried) : (Plan.aggregate p gs as s).Carried where
  item := by
    obtain ⟨⟨is, his, hleni, hfi⟩, -⟩ := carried_exprs hgs
    obtain ⟨⟨js, hjs, hlenj, hfj⟩, -⟩ := carried_exprs has
    obtain ⟨i, hi, hf⟩ := h.item
    refine ⟨planNode "Aggregate" [("input", i), ("group_expr", .list is), ("aggr_expr", .list js),
      ("schema", .schema s)], ?_, ?_⟩
    · rw [planItem, hi, his, hjs]
      rfl
    · exact fits_grouping.mpr ⟨hf, ⟨hleni ▸ hg, hfi⟩, hlenj ▸ ha, hfj⟩
  delivered := by
    rw [Plan.delivered?, h.delivered, (carried_exprs hgs).2, (carried_exprs has).2]
    rfl

end plans

end Wire
end LazyQuery
