import LazyQuery.Proofs.Wire.Nodes

/-! Expressions and plans in messages. Everything arrives as it was sent; only the values of
literals may have become others. -/
namespace LazyQuery
open Wire

mutual
def Expr.delivered? : Expr → Option Expr
  | .column i => if Held i then some (.column i) else none
  | .literal v t => v.delivered?.map fun w => .literal w t
  | .wildcard => some .wildcard
  | .aggregate name args t => (Expr.allDelivered? args).map fun args => .aggregate name args t
  | .binary l op r => l.delivered?.bind fun l => r.delivered?.map fun r => .binary l op r
  | .not e => e.delivered?.map .not
  | .isNull e => e.delivered?.map .isNull
  | .isNotNull e => e.delivered?.map .isNotNull
  | .cast e t => e.delivered?.map fun e => .cast e t
  | .alias e name => e.delivered?.map fun e => .alias e name
  | .bare => none

def Expr.allDelivered? : List Expr → Option (List Expr)
  | [] => some []
  | e :: es => e.delivered?.bind fun e => (Expr.allDelivered? es).map fun es => e :: es
end

def Expr.isLiteral : Expr → Bool
  | .literal .. => true
  | _ => false

/-- What a plan is after a message has carried it, if a message can. A count has to be a literal. -/
def Plan.delivered? : Plan → Option Plan
  | .empty s => some (.empty s)
  | .memory bs s => some (.memory bs s)
  | .file scan => if scan.projection.all fun ps => ps.all fun i =>
      Held i then some (.file scan) else none
  | .projection es p s =>
    (Expr.allDelivered? es).bind fun es => p.delivered?.map fun p => .projection es p s
  | .selection e p => e.delivered?.bind fun e => p.delivered?.map fun p => .selection e p
  | .limit e p s =>
    if e.isLiteral then e.delivered?.bind fun e => p.delivered?.map fun p => .limit e p s else none
  | .aggregate p gs as s =>
    p.delivered?.bind fun p => (Expr.allDelivered? gs).bind fun gs =>
      (Expr.allDelivered? as).map fun as => .aggregate p gs as s
  | .bare => none

namespace Wire

theorem Reads.of_eq {shape : Shape} {x y : Outcome Item} {o p : Option Slot} (h : Reads shape x o)
    (hx : y = x) (hp : p = o) : Reads shape y p := by
  rw [hx, hp]
  exact h

/-- The kinds of node at a place where a message has to name one. -/
@[simp]
def NodeClass.kinds : NodeClass → List NodeShape
  | .expr => NodeShape.exprs
  | .plan => NodeShape.plans
  | .request | .literal => []

section kinds
variable {c : NodeClass} {n : NodeShape}

theorem kind_found (h : n ∈ c.kinds) :
    (∀ path es, NodeShape.ofClass path es c = NodeShape.choose c.kinds n.tag path es) ∧
      c.kinds.find? (·.kind = n.kind) = some n ∧ (n.tag :: n.members.map (·.name)).Nodup := by
  cases c with
  | request | literal => cases h
  | expr =>
    simp only [NodeClass.kinds, NodeShape.exprs, List.mem_cons, List.not_mem_nil, or_false] at h
    obtain rfl | rfl | rfl | rfl | rfl | rfl | rfl | rfl | rfl | rfl := h <;>
      exact ⟨fun _ _ => rfl, by simp [NodeShape.exprs, NodeShape.literal, NodeShape.inner]⟩
  | plan =>
    simp only [NodeClass.kinds, NodeShape.plans, List.mem_cons, List.not_mem_nil, or_false] at h
    obtain rfl | rfl | rfl | rfl | rfl | rfl | rfl := h <;>
      exact ⟨fun _ _ => rfl,
        by simp [NodeShape.plans, NodeShape.input, NodeShape.inner, NodeShape.schema]⟩

theorem reads_kind (n : NodeShape) (ss : List Sent) (h : n ∈ c.kinds)
    (hm : n.members = ss.map Sent.member) :
    Reads (.node c) (sentItems ss >>= fun is => .ok (node n.tag n.kind is))
      ((sentSlots ss).bind fun slots => (build c n.kind slots).toOption) := by
  obtain ⟨hc, hf, hn⟩ := kind_found h
  refine reads_node ss (fun path ps => ?_) hm hn
  rw [hc]
  exact choose_written ps hf

end kinds

theorem reads_unknown {c : NodeClass} {shapes : List NodeShape} (n : NodeShape)
    (hc : ∀ path es, NodeShape.ofClass path es c = NodeShape.choose shapes n.tag path es)
    (hf : shapes.find? (·.kind = n.kind) = none) :
    Reads (.node c) (.ok (node n.tag n.kind [])) none := by
  intro path
  rw [show node n.tag n.kind [] = .map (n.written []) from rfl, readSlot]
  simp only [hc, NodeShape.choose, findTag_written, Outcome.ok_bind, hf]
  rfl

theorem mapM_slots {α : Type} {f : Slot → Option α} (make : α → Slot)
    (h : ∀ a, f (make a) = some a) (as : List α) : (as.map make).mapM f = some as := by
  induction as with
  | nil => rfl
  | cons a as ih =>
    rw [List.map_cons, List.mapM_cons, h, ih]
    rfl

section slots
variable {s : Slots} {name : String}

theorem exprs?_eq {es : List Expr} (h : s.get? name = some (.list (es.map .expr))) :
    s.exprs? name = some es := by
  rw [Slots.exprs?, Slots.list?, h]
  exact mapM_slots .expr (fun _ => rfl) es

theorem batches?_eq {bs : List Batch} (h : s.get? name = some (.list (bs.map .batch))) :
    s.batches? name = some bs := by
  rw [Slots.batches?, Slots.list?, h]
  exact mapM_slots .batch (fun _ => rfl) bs

theorem positions?_eq {is : List Int} (h : s.get? name = some (.list (is.map .int))) :
    s.positions? name = some (some is) := by
  rw [Slots.positions?, Slots.list?, h]
  exact congrArg (Option.map some) (mapM_slots .int (fun _ => rfl) is)

end slots

section build

theorem build_aggregate (name : String) (args : List Expr) (t : DataType) :
    build .expr "AggregateFunction" [("name", .text name), ("args", .list (args.map .expr)),
      ("return_type", .type t)] = .ok (.expr (.aggregate name args t)) := by
  have ha : Slots.exprs? [("name", .text name), ("args", .list (args.map .expr)),
      ("return_type", .type t)] "args" = some args := exprs?_eq rfl
  simp only [build, buildExpr, ha]
  rfl

theorem build_memory (bs : List Batch) (s : Schema) :
    build .plan "MemoryScan" [("batches", .list (bs.map .batch)), ("schema", .schema s)] =
      .ok (.plan (.memory bs s)) := by
  have hb : Slots.batches? [("batches", .list (bs.map .batch)), ("schema", .schema s)] "batches" =
      some bs := batches?_eq rfl
  simp only [build, buildPlan, hb]
  rfl

theorem build_file (scan : FileScan) :
    build .plan "FileScan" [("path", .text scan.path), ("file_type", .text scan.format),
      ("schema", .schema scan.schema), ("projected_schema", .schema scan.projected),
      ("projection", (scan.projection.map fun is => .list (is.map .int)).getD .null),
      ("has_header", .bool scan.hasHeader), ("delimiter", .text scan.delimiter)] =
      .ok (.plan (.file scan)) := by
  obtain ⟨path, format, schema, projected, projection, hasHeader, delimiter⟩ := scan
  cases projection with
  | none => rfl
  | some is =>
    have hp : Slots.positions? [("path", .text path), ("file_type", .text format),
        ("schema", .schema schema), ("projected_schema", .schema projected),
        ("projection", .list (is.map .int)), ("has_header", .bool hasHeader),
        ("delimiter", .text delimiter)] "projection" = some (some is) := positions?_eq rfl
    simp only [Option.map_some, Option.getD_some, build, buildPlan, hp]
    rfl

theorem build_projection (es : List Expr) (p : Plan) (s : Schema) :
    build .plan "Projection" [("expr", .list (es.map .expr)), ("input", .plan p),
      ("schema", .schema s)] = .ok (.plan (.projection es p s)) := by
  have he : Slots.exprs? [("expr", .list (es.map .expr)), ("input", .plan p), ("schema", .schema s)]
      "expr" = some es := exprs?_eq rfl
  simp only [build, buildPlan, he]
  rfl

theorem build_grouping (p : Plan) (gs as : List Expr) (s : Schema) :
    build .plan "Aggregate" [("input", .plan p), ("group_expr", .list (gs.map .expr)),
      ("aggr_expr", .list (as.map .expr)), ("schema", .schema s)] =
      .ok (.plan (.aggregate p gs as s)) := by
  have hg : Slots.exprs? [("input", .plan p), ("group_expr", .list (gs.map .expr)),
      ("aggr_expr", .list (as.map .expr)), ("schema", .schema s)] "group_expr" = some gs :=
    exprs?_eq rfl
  have ha : Slots.exprs? [("input", .plan p), ("group_expr", .list (gs.map .expr)),
      ("aggr_expr", .list (as.map .expr)), ("schema", .schema s)] "aggr_expr" = some as :=
    exprs?_eq rfl
  simp only [build, buildPlan, hg, ha]
  rfl

end build

section exprs

theorem reads_over (kind : String) (wrap : Expr → Expr) {e : Expr}
    (hn : ⟨"kind", kind, [NodeShape.inner]⟩ ∈ NodeShape.exprs)
    (hb : ∀ e, build .expr kind [("expr", .expr e)] = .ok (.expr (wrap e)))
    (h : Reads (.node .expr) (exprItem e) (e.delivered?.map .expr)) :
    Reads (.node .expr) (exprItem e >>= fun i => .ok (exprNode kind [("expr", i)]))
      ((e.delivered?.map wrap).map .expr) := by
  have hr :=
    reads_kind (c := .expr) ⟨"kind", kind, [NodeShape.inner]⟩ [⟨NodeShape.inner, _, _, h⟩]
    hn rfl
  refine hr.of_eq ?_ ?_
  · simp only [sentItems, bind_assoc, Outcome.ok_bind]
    rfl
  · simp only [sentSlots]
    cases e.delivered? with
    | none => rfl
    | some e =>
      have hs := congrArg Except.toOption (hb e)
      exact hs.symm

theorem reads_literal (c : NodeClass) (hc : c = .literal ∨ c = .expr) (v : Datum) (t : DataType) :
    Reads (.node c) (exprItem (.literal v t)) ((Expr.literal v t).delivered?.map .expr) := by
  have hn : NodeShape.literal ∈ NodeClass.expr.kinds := by simp [NodeShape.exprs]
  have hf : ∀ path ps, NodeShape.ofClass path (NodeShape.literal.written ps) c =
      .ok .literal := by
    intro path ps
    obtain rfl | rfl := hc
    · rfl
    · exact choose_written ps (kind_found hn).2.1
  have hr := reads_node [⟨⟨"value", .any, none⟩, _, _, reads_any v⟩,
    ⟨⟨"dtype", .type, none⟩, _, _, reads_type t⟩] hf rfl (kind_found hn).2.2
  refine hr.of_eq ?_ ?_
  · rw [exprItem, literalItem]
    simp only [sentItems, bind_assoc, Outcome.ok_bind]
    rfl
  · simp only [Expr.delivered?, sentSlots]
    obtain rfl | rfl := hc <;> cases v.delivered? <;> rfl

mutual
theorem reads_expr (e : Expr) : Reads (.node .expr) (exprItem e) (e.delivered?.map .expr) := by
  cases e with
  | column i =>
    have h :=
      reads_kind (c := .expr) ⟨"kind", "Column", [⟨"index", .int, none⟩]⟩
      [⟨_, _, _, reads_int i⟩] (by simp [NodeShape.exprs]) rfl
    refine h.of_eq ?_ ?_
    · rw [exprItem]
      simp only [sentItems, bind_assoc, Outcome.ok_bind]
      rfl
    · rw [Expr.delivered?]
      split <;> rfl
  | literal v t => exact reads_literal .expr (.inr rfl) v t
  | wildcard =>
    exact reads_kind (c := .expr) ⟨"kind", "Wildcard", []⟩ [] (by simp [NodeShape.exprs]) rfl
  | aggregate name args t =>
    have h := reads_kind (c := .expr) ⟨"kind", "AggregateFunction",
        [⟨"name", .text, none⟩, ⟨"args", .list (.node .expr), none⟩,
          ⟨"return_type", .type, none⟩]⟩
      [⟨_, _, _, reads_text name⟩, ⟨_, _, _, reads_list (reads_exprs args)⟩,
        ⟨_, _, _, reads_type t⟩] (by simp [NodeShape.exprs]) rfl
    refine h.of_eq ?_ ?_
    · rw [exprItem]
      simp only [sentItems, bind_assoc, Outcome.ok_bind]
      rfl
    · simp only [Expr.delivered?, sentSlots]
      cases Expr.allDelivered? args with
      | none => rfl
      | some args => exact (congrArg Except.toOption (build_aggregate name args t)).symm
  | binary l op r =>
    have h := reads_kind (c := .expr) ⟨"kind", "BinaryExpr",
        [⟨"left", .node .expr, none⟩, ⟨"op", .text, none⟩,
          ⟨"right", .node .expr, none⟩]⟩
      [⟨_, _, _, reads_expr l⟩, ⟨_, _, _, reads_text op⟩, ⟨_, _, _, reads_expr r⟩]
      (by simp [NodeShape.exprs]) rfl
    refine h.of_eq ?_ ?_
    · rw [exprItem]
      simp only [sentItems, bind_assoc, Outcome.ok_bind]
      rfl
    · simp only [Expr.delivered?, sentSlots]
      cases l.delivered? with
      | none => rfl
      | some l => cases r.delivered? <;> rfl
  | not e => exact reads_over "Not" .not (by simp [NodeShape.exprs]) (fun _ => rfl) (reads_expr e)
  | isNull e =>
    exact reads_over "IsNull" .isNull (by simp [NodeShape.exprs]) (fun _ => rfl) (reads_expr e)
  | isNotNull e =>
    exact reads_over "IsNotNull" .isNotNull (by simp [NodeShape.exprs]) (fun _ => rfl)
      (reads_expr e)
  | cast e t =>
    have h :=
      reads_kind (c := .expr) ⟨"kind", "Cast", [NodeShape.inner, ⟨"dtype", .type, none⟩]⟩
      [⟨_, _, _, reads_expr e⟩, ⟨_, _, _, reads_type t⟩] (by simp [NodeShape.exprs]) rfl
    refine h.of_eq ?_ ?_
    · rw [exprItem]
      simp only [sentItems, bind_assoc, Outcome.ok_bind]
      rfl
    · simp only [Expr.delivered?, sentSlots]
      cases e.delivered? <;> rfl
  | «alias» e name =>
    have h :=
      reads_kind (c := .expr) ⟨"kind", "Alias", [NodeShape.inner, ⟨"name", .text, none⟩]⟩
      [⟨_, _, _, reads_expr e⟩, ⟨_, _, _, reads_text name⟩] (by simp [NodeShape.exprs]) rfl
    refine h.of_eq ?_ ?_
    · rw [exprItem]
      simp only [sentItems, bind_assoc, Outcome.ok_bind]
      rfl
    · simp only [Expr.delivered?, sentSlots]
      cases e.delivered? <;> rfl
  | bare =>
    exact reads_unknown ⟨"kind", "Expr", []⟩ (fun _ _ => rfl)
      (by simp [NodeShape.exprs, NodeShape.literal])

theorem reads_exprs (es : List Expr) :
    ReadsAll (.node .expr) (exprItems es) ((Expr.allDelivered? es).map fun es => es.map .expr) := by
  cases es with
  | nil => exact readsAll_nil
  | cons e es =>
    have h := readsAll_cons (reads_expr e) (reads_exprs es)
    rw [exprItems, Expr.allDelivered?]
    refine Eq.mp (congrArg (ReadsAll _ _) ?_) h
    cases e.delivered? with
    | none => rfl
    | some e => cases Expr.allDelivered? es <;> rfl
end

end exprs

section count

theorem reads_otherKind {kind : String} (ms : List (String × Item))
    (h : kind ≠ NodeShape.literal.kind) : Reads (.node .literal)
    (.ok (exprNode kind ms)) none := by
  intro path
  have ht : named NodeShape.literal.tag "kind".toUTF8.toList = true := named_iff.mpr rfl
  have hk : (checkTag .literal path (textItem kind)).toOption = none := by
    rw [checkTag, textItem, readTag, readUtf8_toUTF8, Outcome.ok_bind, if_neg h]
    rfl
  rw [exprNode, node, readSlot]
  simp only [NodeShape.ofClass, Outcome.ok_bind]
  rw [readMembers, textItem, readKey, Outcome.ok_bind, if_pos ht]
  simp only [Outcome.toOption_bind, hk]
  rfl

theorem kind_of_exprItem {e : Expr} {i : Item} (he : e.isLiteral = false) (h : exprItem e = .ok i) :
    ∃ kind ms, kind ≠ NodeShape.literal.kind ∧ i = exprNode kind ms := by
  cases e with
  | literal v t => cases he
  | column i =>
    obtain ⟨j, -, h⟩ := Outcome.bind_eq_ok.mp h
    cases h
    exact ⟨"Column", _, by decide, rfl⟩
  | wildcard =>
    cases h
    exact ⟨"Wildcard", _, by decide, rfl⟩
  | aggregate name args t =>
    obtain ⟨is, -, h⟩ := Outcome.bind_eq_ok.mp h
    cases h
    exact ⟨"AggregateFunction", _, by decide, rfl⟩
  | binary l op r =>
    obtain ⟨a, -, h⟩ := Outcome.bind_eq_ok.mp h
    obtain ⟨b, -, h⟩ := Outcome.bind_eq_ok.mp h
    cases h
    exact ⟨"BinaryExpr", _, by decide, rfl⟩
  | not e | isNull e | isNotNull e | cast e _ | «alias» e _ =>
    obtain ⟨a, -, h⟩ := Outcome.bind_eq_ok.mp h
    cases h
    exact ⟨_, _, by decide, rfl⟩
  | bare =>
    cases h
    exact ⟨"Expr", _, by decide, rfl⟩

theorem reads_count (e : Expr) :
    Reads (.node .literal) (exprItem e)
    ((if e.isLiteral then e.delivered? else none).map .expr) := by
  cases he : e.isLiteral with
  | true =>
    cases e with
    | literal v t => exact reads_literal .literal (.inl rfl) v t
    | _ => cases he
  | false =>
    -- whatever else is written in the place of a count, its kind is refused there
    cases hi : exprItem e with
    | error f => exact rfl
    | ok i =>
      obtain ⟨kind, ms, hk, rfl⟩ := kind_of_exprItem he hi
      exact reads_otherKind ms hk

end count

section plans

theorem readsAll_batches (bs : List Batch) :
    ReadsAll .batch (.ok (bs.map .batch)) (some (bs.map .batch)) := by
  induction bs with
  | nil => exact readsAll_nil
  | cons b bs ih =>
    have hb : Reads .batch (.ok (.batch b)) (some (.batch b)) := fun _ => rfl
    exact readsAll_cons hb ih

theorem readsAll_positions (is : List Int) :
    ReadsAll .int (is.mapM intItem)
    (if is.all fun i => Held i then some (is.map .int) else none) := by
  induction is with
  | nil => exact readsAll_nil
  | cons i is ih =>
    have h := readsAll_cons (reads_int i) ih
    rw [List.mapM_cons]
    refine Eq.mp (congrArg (ReadsAll _ _) ?_) h
    by_cases hi : Held i
    · cases ha : is.all fun i => Held i <;> simp [hi, ha]
    · simp [hi]

theorem reads_positions (ps : Option (List Int)) :
    Reads (.listOrNull .int) (positionsItem ps)
      (if ps.all fun is => is.all fun i => Held i then
        some ((ps.map fun is => .list (is.map .int)).getD .null) else none) := by
  cases ps with
  | none => exact fun _ => rfl
  | some is =>
    have h := reads_items (.listOrNull .int) (fun _ _ => by rw [readSlot]) (readsAll_positions is)
    refine h.of_eq rfl ?_
    simp only [Option.all_some, Option.map_some, Option.getD_some]
    split <;> rfl

theorem reads_plan (p : Plan) : Reads (.node .plan) (planItem p) (p.delivered?.map .plan) := by
  induction p with
  | empty s =>
    exact reads_kind (c := .plan) ⟨"node", "EmptyRelation", [NodeShape.schema]⟩
      [⟨NodeShape.schema, _, _, reads_schema s⟩] (by simp [NodeShape.plans]) rfl
  | memory bs s =>
    have h := reads_kind (c := .plan)
      ⟨"node", "MemoryScan", [⟨"batches", .list .batch, none⟩, NodeShape.schema]⟩
      [⟨_, _, _, reads_list (readsAll_batches bs)⟩, ⟨_, _, _, reads_schema s⟩]
      (by simp [NodeShape.plans]) rfl
    exact h.of_eq rfl (congrArg Except.toOption (build_memory bs s)).symm
  | file scan =>
    have h := reads_kind (c := .plan) ⟨"node", "FileScan",
        [⟨"path", .text, none⟩, ⟨"file_type", .text, none⟩, NodeShape.schema,
          ⟨"projected_schema", .schema, none⟩, ⟨"projection", .listOrNull .int, some .null⟩,
          ⟨"has_header", .bool, some (.bool true)⟩,
          ⟨"delimiter", .text, some (.text ",")⟩]⟩
      [⟨_, _, _, reads_text scan.path⟩, ⟨_, _, _, reads_text scan.format⟩,
        ⟨_, _, _, reads_schema scan.schema⟩, ⟨_, _, _, reads_schema scan.projected⟩,
        ⟨_, _, _, reads_positions scan.projection⟩, ⟨_, _, _, reads_bool scan.hasHeader⟩,
        ⟨_, _, _, reads_text scan.delimiter⟩]
      (by simp [NodeShape.plans]) rfl
    refine h.of_eq ?_ ?_
    · rw [planItem, scanItem]
      simp only [sentItems, bind_assoc, Outcome.ok_bind]
      rfl
    · rw [Plan.delivered?]
      simp only [sentSlots]
      split
      · exact (congrArg Except.toOption (build_file scan)).symm
      · rfl
  | projection es p s ih =>
    have h := reads_kind (c := .plan)
      ⟨"node", "Projection", [⟨"expr", .list (.node .expr), none⟩, NodeShape.input,
        NodeShape.schema]⟩
      [⟨_, _, _, reads_list (reads_exprs es)⟩, ⟨_, _, _, ih⟩, ⟨_, _, _, reads_schema s⟩]
      (by simp [NodeShape.plans]) rfl
    refine h.of_eq ?_ ?_
    · rw [planItem]
      simp only [sentItems, bind_assoc, Outcome.ok_bind]
      rfl
    · rw [Plan.delivered?]
      simp only [sentSlots]
      cases Expr.allDelivered? es with
      | none => rfl
      | some es =>
        cases p.delivered? with
        | none => rfl
        | some p => exact (congrArg Except.toOption (build_projection es p s)).symm
  | selection e p ih =>
    have h := reads_kind (c := .plan) ⟨"node", "Selection", [NodeShape.inner, NodeShape.input]⟩
      [⟨_, _, _, reads_expr e⟩, ⟨_, _, _, ih⟩] (by simp [NodeShape.plans]) rfl
    refine h.of_eq ?_ ?_
    · rw [planItem]
      simp only [sentItems, bind_assoc, Outcome.ok_bind]
      rfl
    · rw [Plan.delivered?]
      simp only [sentSlots]
      cases e.delivered? with
      | none => rfl
      | some e => cases p.delivered? <;> rfl
  | limit e p s ih =>
    have h := reads_kind (c := .plan)
      ⟨"node", "Limit", [⟨"expr", .node .literal, none⟩, NodeShape.input, NodeShape.schema]⟩
      [⟨_, _, _, reads_count e⟩, ⟨_, _, _, ih⟩, ⟨_, _, _, reads_schema s⟩]
      (by simp [NodeShape.plans]) rfl
    refine h.of_eq ?_ ?_
    · rw [planItem]
      simp only [sentItems, bind_assoc, Outcome.ok_bind]
      rfl
    · rw [Plan.delivered?]
      simp only [sentSlots]
      cases e.isLiteral with
      | false => rfl
      | true =>
        cases e.delivered? with
        | none => rfl
        | some e => cases p.delivered? <;> rfl
  | aggregate p gs as s ih =>
    have h := reads_kind (c := .plan)
      ⟨"node", "Aggregate", [NodeShape.input, ⟨"group_expr", .list (.node .expr), none⟩,
        ⟨"aggr_expr", .list (.node .expr), none⟩, NodeShape.schema]⟩
      [⟨_, _, _, ih⟩, ⟨_, _, _, reads_list (reads_exprs gs)⟩,
        ⟨_, _, _, reads_list (reads_exprs as)⟩,
        ⟨_, _, _, reads_schema s⟩]
      (by simp [NodeShape.plans]) rfl
    refine h.of_eq ?_ ?_
    · rw [planItem]
      simp only [sentItems, bind_assoc, Outcome.ok_bind]
      rfl
    · rw [Plan.delivered?]
      simp only [sentSlots]
      cases p.delivered? with
      | none => rfl
      | some p =>
        cases Expr.allDelivered? gs with
        | none => rfl
        | some gs =>
          cases Expr.allDelivered? as with
          | none => rfl
          | some as => exact (congrArg Except.toOption (build_grouping p gs as s)).symm
  | bare =>
    exact reads_unknown ⟨"node", "LogicalPlan", []⟩ (fun _ _ => rfl) (by simp [NodeShape.plans])

end plans

end Wire
end LazyQuery
