import LazyQuery.Proofs.Wire.Travelling

/-! Plans of portable values as messages. Such a plan has a message unless one of its texts, byte
strings, lists or records has too many parts, and the message is read as the same plan. -/
namespace LazyQuery
open Wire

def Wire.IsShort (s : String) : Prop := s.utf8ByteSize < sizeLimit

mutual
/-- No text, byte string, list or record in the value has too many parts. -/
def Datum.Short : Datum → Prop
  | .text s => IsShort s
  | .bytes bs => bs.length < sizeLimit
  | .list ds => ds.length < sizeLimit ∧ Datum.AllShort ds
  | .record es => es.length < sizeLimit ∧ Datum.EntriesShort es
  | _ => True

def Datum.AllShort : List Datum → Prop
  | [] => True
  | d :: ds => d.Short ∧ Datum.AllShort ds

def Datum.EntriesShort : List (Datum × Datum) → Prop
  | [] => True
  | (k, d) :: es => k.Short ∧ d.Short ∧ Datum.EntriesShort es
end

mutual
/-- No name, literal or list of arguments in the expression has too many parts. -/
def Expr.Short : Expr → Prop
  | .column _ | .wildcard | .bare => True
  | .literal v _ => v.Short
  | .aggregate name args _ => IsShort name ∧ args.length < sizeLimit ∧ Expr.AllShort args
  | .binary l op r => l.Short ∧ IsShort op ∧ r.Short
  | .not e | .isNull e | .isNotNull e | .cast e _ => e.Short
  | .alias e name => e.Short ∧ IsShort name

def Expr.AllShort : List Expr → Prop
  | [] => True
  | e :: es => e.Short ∧ Expr.AllShort es
end

/-- Nothing in the plan has too many parts. -/
def Plan.Short : Plan → Prop
  | .empty _ | .bare => True
  | .memory bs _ => bs.length < sizeLimit
  | .file scan => IsShort scan.path ∧ IsShort scan.format ∧
    (∀ is, scan.projection = some is → is.length < sizeLimit) ∧ IsShort scan.delimiter
  | .projection es p _ => es.length < sizeLimit ∧ Expr.AllShort es ∧ p.Short
  | .selection e p | .limit e p _ => e.Short ∧ p.Short
  | .aggregate p gs as _ => p.Short ∧ (gs.length < sizeLimit ∧ Expr.AllShort gs) ∧
    as.length < sizeLimit ∧ Expr.AllShort as

namespace Wire

theorem fits_textItem {s : String} : (textItem s).fits = true ↔ IsShort s := by
  have hlen : s.toUTF8.toList.length = s.utf8ByteSize := by
    rw [toList_eq, Array.length_toList]
    rfl
  rw [textItem, Item.fits, decide_eq_true_eq, hlen, IsShort]

section values

mutual
/-- A portable value has an item, and there is room for it just if the value is short. -/
theorem exists_itemOf {d : Datum} (h : d.Portable) :
    ∃ i, itemOf d = .ok i ∧ (i.fits = true ↔ d.Short) := by
  cases d with
  | null | bool | float => exact ⟨_, rfl, iff_of_true rfl trivial⟩
  | text s => exact ⟨_, rfl, fits_textItem⟩
  | bytes bs => exact ⟨_, rfl, decide_eq_true_iff⟩
  | int i => exact ⟨.int i, by rw [itemOf, intItem_ok h], iff_of_true (fits_int.mpr h) trivial⟩
  | list ds =>
    obtain ⟨is, his, hlen, hfs⟩ := exists_itemsOf h
    refine ⟨.list is, by rw [itemOf, his]; rfl, ?_⟩
    rw [Item.fits, Bool.and_eq_true, decide_eq_true_eq, hlen, hfs, Datum.Short]
  | record es =>
    obtain ⟨is, his, hlen, hfs⟩ := exists_entriesOf h
    refine ⟨.map is, by rw [itemOf, his]; rfl, ?_⟩
    rw [Item.fits, Bool.and_eq_true, decide_eq_true_eq, hlen, hfs, Datum.Short]
  | _ => exact h.elim

theorem exists_itemsOf {ds : List Datum} (h : Datum.AllPortable ds) :
    ∃ is, itemsOf ds = .ok is ∧ is.length = ds.length ∧
    (allFit is = true ↔ Datum.AllShort ds) := by
  cases ds with
  | nil => exact ⟨[], rfl, rfl, iff_of_true rfl trivial⟩
  | cons d ds =>
    obtain ⟨i, hi, hf⟩ := exists_itemOf h.1
    obtain ⟨is, his, hlen, hfs⟩ := exists_itemsOf h.2
    refine ⟨i :: is, by rw [itemsOf, hi, his]; rfl, congrArg (· + 1) hlen, ?_⟩
    rw [allFit, Bool.and_eq_true, hf, hfs, Datum.AllShort]

theorem exists_entriesOf {es : List (Datum × Datum)} (h : Datum.EntriesPortable es) :
    ∃ is, entriesOf es = .ok is ∧ is.length = es.length ∧
      (entriesFit is = true ↔ Datum.EntriesShort es) := by
  match es, h with
  | [], _ => exact ⟨[], rfl, rfl, iff_of_true rfl trivial⟩
  | (k, d) :: es, ⟨⟨s, hk⟩, _, hd, hes⟩ =>
    subst hk
    obtain ⟨i, hi, hf⟩ := exists_itemOf hd
    obtain ⟨is, his, hlen, hfs⟩ := exists_entriesOf hes
    refine ⟨(textItem s, i) :: is,
      by rw [entriesOf, itemOf, hi, his]; rfl, congrArg (· + 1) hlen, ?_⟩
    rw [entriesFit, Bool.and_eq_true, Bool.and_eq_true, fits_textItem, hf, hfs, Datum.EntriesShort,
      Datum.Short, and_assoc]
end

end values

section exprs

theorem exists_over {kind : String} (wrap : Expr → Expr) {e : Expr}
    (hn : ⟨"kind", kind, [NodeShape.inner]⟩ ∈ NodeShape.exprs)
    (hi : exprItem (wrap e) = exprItem e >>= fun i => .ok (exprNode kind [("expr", i)]))
    (he : ∃ i, exprItem e = .ok i ∧ (i.fits = true ↔ e.Short)) :
    ∃ i, exprItem (wrap e) = .ok i ∧ (i.fits = true ↔ e.Short) := by
  obtain ⟨i, hei, hf⟩ := he
  exact ⟨_, by rw [hi, hei]; rfl, (fits_over hn).trans hf⟩

mutual
/-- An expression of portable values has an item, and there is room for it just if the expression is
short. -/
theorem exists_exprItem {e : Expr} (h : e.Portable) :
    ∃ i, exprItem e = .ok i ∧ (i.fits = true ↔ e.Short) := by
  cases e with
  | column i =>
    exact ⟨_, by rw [exprItem, intItem_ok h]; rfl,
      fits_column.trans (iff_of_true (fits_int.mpr h) trivial)⟩
  | literal v t =>
    obtain ⟨i, hi, hf⟩ := exists_itemOf h
    exact ⟨_, by rw [exprItem, literalItem, hi]; rfl, fits_literal.trans hf⟩
  | wildcard => exact ⟨_, rfl, iff_of_true fits_wildcard trivial⟩
  | aggregate name args t =>
    obtain ⟨is, his, hlen, hfs⟩ := exists_exprItems h
    refine ⟨_, by rw [exprItem, his]; rfl, fits_call.trans ?_⟩
    rw [fits_textItem, hlen, hfs, Expr.Short]
  | binary l op r =>
    obtain ⟨i, hi, hfi⟩ := exists_exprItem h.1
    obtain ⟨j, hj, hfj⟩ := exists_exprItem h.2
    refine ⟨_, by rw [exprItem, hi, hj]; rfl, fits_binary.trans ?_⟩
    rw [fits_textItem, hfi, hfj, Expr.Short]
  | not e => exact exists_over .not (by simp [NodeShape.exprs]) rfl (exists_exprItem h)
  | isNull e =>
    exact exists_over .isNull (by simp [NodeShape.exprs]) rfl (exists_exprItem h)
  | isNotNull e =>
    exact exists_over .isNotNull (by simp [NodeShape.exprs]) rfl (exists_exprItem h)
  | cast e t =>
    obtain ⟨i, hi, hf⟩ := exists_exprItem (e := e) h
    exact ⟨_, by rw [exprItem, hi]; rfl, fits_cast.trans hf⟩
  | «alias» e name =>
    obtain ⟨i, hi, hf⟩ := exists_exprItem (e := e) h
    refine ⟨_, by rw [exprItem, hi]; rfl, fits_alias.trans ?_⟩
    rw [fits_textItem, hf, Expr.Short]
  | bare => exact h.elim

theorem exists_exprItems {es : List Expr} (h : Expr.AllPortable es) :
    ∃ is, exprItems es = .ok is ∧ is.length = es.length ∧
    (allFit is = true ↔ Expr.AllShort es) := by
  cases es with
  | nil => exact ⟨[], rfl, rfl, iff_of_true rfl trivial⟩
  | cons e es =>
    obtain ⟨i, hi, hf⟩ := exists_exprItem h.1
    obtain ⟨is, his, hlen, hfs⟩ := exists_exprItems h.2
    refine ⟨i :: is, by rw [exprItems, hi, his]; rfl, congrArg (· + 1) hlen, ?_⟩
    rw [allFit, Bool.and_eq_true, hf, hfs, Expr.AllShort]
end

end exprs

theorem exists_positionsItem {projection : Option (List Int)}
    (h : ∀ is, projection = some is → ∀ i ∈ is, Held i) :
    ∃ i, positionsItem projection = .ok i ∧
      (i.fits = true ↔ ∀ is, projection = some is → is.length < sizeLimit) := by
  cases projection with
  | none => exact ⟨.null, rfl, iff_of_true rfl nofun⟩
  | some is =>
    obtain ⟨his, hfs⟩ := carried_positions (h is rfl)
    refine ⟨.list (is.map .int), by rw [positionsItem, his]; rfl, ?_⟩
    rw [Item.fits, Bool.and_eq_true, decide_eq_true_eq, and_iff_left hfs, List.length_map]
    simp

/-- A plan of portable values has an item, and there is room for it just if the plan is short. -/
theorem exists_planItem {p : Plan} (h : p.Portable) :
    ∃ i, planItem p = .ok i ∧ (i.fits = true ↔ p.Short) := by
  induction p with
  | empty s => exact ⟨_, rfl, iff_of_true fits_empty trivial⟩
  | memory bs s => exact ⟨_, rfl, fits_memory⟩
  | file scan =>
    obtain ⟨i, hi, hf⟩ := exists_positionsItem h
    refine ⟨_, by rw [planItem, scanItem, hi]; rfl, fits_file.trans ?_⟩
    rw [fits_textItem, fits_textItem, fits_textItem, hf, Plan.Short]
  | projection es p s ih =>
    obtain ⟨is, his, hlen, hfs⟩ := exists_exprItems h.1
    obtain ⟨i, hi, hf⟩ := ih h.2
    refine ⟨_, by rw [planItem, his, hi]; rfl, fits_projection.trans ?_⟩
    rw [hlen, hfs, hf, Plan.Short]
  | selection e p ih =>
    obtain ⟨i, hi, hfi⟩ := exists_exprItem h.1
    obtain ⟨j, hj, hfj⟩ := ih h.2
    refine ⟨_, by rw [planItem, hi, hj]; rfl, fits_selection.trans ?_⟩
    rw [hfi, hfj, Plan.Short]
  | limit e p s ih =>
    obtain ⟨i, hi, hfi⟩ := exists_exprItem h.2.1
    obtain ⟨j, hj, hfj⟩ := ih h.2.2
    refine ⟨_, by rw [planItem, hi, hj]; rfl, fits_limit.trans ?_⟩
    rw [hfi, hfj, Plan.Short]
  | aggregate p gs as s ih =>
    obtain ⟨i, hi, hf⟩ := ih h.1
    obtain ⟨is, his, hleni, hfi⟩ := exists_exprItems h.2.1
    obtain ⟨js, hjs, hlenj, hfj⟩ := exists_exprItems h.2.2
    refine ⟨_, by rw [planItem, hi, his, hjs]; rfl, fits_grouping.trans ?_⟩
    rw [hf, hleni, hfi, hlenj, hfj, Plan.Short]
  | bare => exact h.elim

/-- A plan of portable values has a message if nothing in it has 2 ^ 32 parts or more, and that
message is read as the same plan. If something has too many parts there is no message. -/
theorem decodeRequest_encodeRequest {p : Plan} (h : p.Portable) :
    (p.Short → ∃ ts, encodeRequest p = .ok ts ∧ decodeRequest ts = .ok p) ∧
      (¬p.Short → encodeRequest p = fail .badValue) := by
  obtain ⟨i, hi, hf⟩ := exists_planItem h
  have hr : requestItem p = .ok (node "action" "Collect" [("plan", i)]) := by
    rw [requestItem, hi]
    rfl
  rw [← hf, ← fits_request, encodeRequest_of_item hr]
  refine ⟨fun hfits => ?_, fun hfits => if_neg hfits⟩
  have hd := toOption_decodeRequest hr hfits
  rw [Plan.delivered?_portable h] at hd
  exact ⟨_, if_pos hfits, Outcome.toOption_eq_some.mp hd⟩

/-- Steps of all four kinds over a file of which no column is wanted. One of the literals has the
entries of a node, and its items are equal as numbers. -/
def nestedPlan : Plan :=
  .limit (.literal (.int 3) .uint64)
    (.selection
      (.binary
        (.literal
          (.record [(.text "kind", .text "Literal"), (.text "value",
            .list [.bool true, .int 1, .float 1.0, .float (0.0 / 0.0), .null, .bytes [0, 255]])])
          .null)
        "==" (.column 0))
      (.aggregate
        (.projection [.wildcard, .alias (.cast (.column 1) .double) "née"]
          (.file ⟨"a.csv", "csv", [⟨"a", .int64, true⟩, ⟨"b", .string, false⟩], [],
            some [], false, ";"⟩) [⟨"a", .int64, true⟩])
        [] [.sum (.not (.isNull (.column 0)))] [⟨"n", .double, true⟩]))
    [⟨"n", .double, true⟩]

theorem portable_nestedPlan : nestedPlan.Portable := by
  simp [nestedPlan, Plan.Portable, Expr.Portable, Expr.AllPortable, Datum.Portable,
    Datum.AllPortable, Datum.EntriesPortable, Held, Expr.isLiteral, Expr.sum, Expr.call]

theorem short_nestedPlan : nestedPlan.Short := by
  have hname : ∀ s ∈ ["kind", "Literal", "value", "==", "née", "a.csv", "csv", ";", "SUM"],
      IsShort s := by
    unfold IsShort
    decide
  simp only [List.forall_mem_cons] at hname
  simp [nestedPlan, Plan.Short, Expr.Short, Expr.AllShort, Datum.Short, Datum.AllShort,
    Datum.EntriesShort, Expr.sum, Expr.call, sizeLimit, hname]

theorem decodeRequest_nestedPlan : nestedPlan.Portable ∧ nestedPlan.Short ∧
    ∃ ts, encodeRequest nestedPlan = .ok ts ∧ decodeRequest ts = .ok nestedPlan :=
  ⟨portable_nestedPlan, short_nestedPlan,
    (decodeRequest_encodeRequest portable_nestedPlan).1 short_nestedPlan⟩

end Wire
end LazyQuery
