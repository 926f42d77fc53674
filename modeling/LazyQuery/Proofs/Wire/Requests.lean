import LazyQuery.Proofs.Wire.Delivery
import LazyQuery.Proofs.Wire.Items

/-! Requests there and back. A message is read as what is delivered of the plan it was written for,
and a plan of portable values is delivered as it is. -/
namespace LazyQuery
open Wire

mutual
/-- Values of literals are portable, and 64 bits hold the positions of columns. -/
def Expr.Portable : Expr → Prop
  | .column i => Held i
  | .literal v _ => v.Portable
  | .wildcard => True
  | .aggregate _ args _ => Expr.AllPortable args
  | .binary l _ r => l.Portable ∧ r.Portable
  | .not e | .isNull e | .isNotNull e | .cast e _ | .alias e _ => e.Portable
  | .bare => False

def Expr.AllPortable : List Expr → Prop
  | [] => True
  | e :: es => e.Portable ∧ Expr.AllPortable es
end

/-- All expressions of the plan are portable, the counts among them are literals, and 64 bits hold
the positions of the columns that are wanted of a file. -/
def Plan.Portable : Plan → Prop
  | .empty _ | .memory .. => True
  | .file scan => ∀ ps, scan.projection = some ps → ∀ i ∈ ps, Held i
  | .projection es p _ => Expr.AllPortable es ∧ p.Portable
  | .selection e p => e.Portable ∧ p.Portable
  | .limit e p _ => e.isLiteral = true ∧ e.Portable ∧ p.Portable
  | .aggregate p gs as _ => p.Portable ∧ Expr.AllPortable gs ∧ Expr.AllPortable as
  | .bare => False

namespace Expr

mutual
theorem delivered?_portable {e : Expr} (h : e.Portable) : e.delivered? = some e := by
  cases e with
  | column i => exact if_pos h
  | literal v t =>
    have hv := Wire.delivered?_portable (d := v) h
    rw [delivered?, hv]
    rfl
  | wildcard => rfl
  | aggregate name args t =>
    rw [delivered?, allDelivered?_portable h]
    rfl
  | binary l op r =>
    rw [delivered?, delivered?_portable h.1, delivered?_portable h.2]
    rfl
  | not e | isNull e | isNotNull e | cast e _ | «alias» e _ =>
    rw [delivered?, delivered?_portable (e := e) h]
    rfl
  | bare => exact h.elim

theorem allDelivered?_portable {es : List Expr} (h : AllPortable es) :
    allDelivered? es = some es := by
  cases es with
  | nil => rfl
  | cons e es =>
    rw [allDelivered?, delivered?_portable h.1, allDelivered?_portable h.2]
    rfl
end

end Expr

theorem Plan.delivered?_portable {p : Plan} (h : p.Portable) : p.delivered? = some p := by
  induction p with
  | empty s => rfl
  | memory bs s => rfl
  | file scan =>
    refine if_pos ?_
    cases hp : scan.projection with
    | none => rfl
    | some ps =>
      have hi := h ps hp
      simpa using hi
  | projection es p s ih =>
    rw [delivered?, Expr.allDelivered?_portable h.1, ih h.2]
    rfl
  | selection e p ih =>
    rw [delivered?, Expr.delivered?_portable h.1, ih h.2]
    rfl
  | limit e p s ih =>
    obtain ⟨hl, he, hp⟩ := h
    rw [delivered?, if_pos hl, Expr.delivered?_portable he, ih hp]
    rfl
  | aggregate p gs as s ih =>
    obtain ⟨hp, hg, ha⟩ := h
    rw [delivered?, ih hp, Expr.allDelivered?_portable hg, Expr.allDelivered?_portable ha]
    rfl
  | bare => exact h.elim

namespace Wire

theorem reads_request (p : Plan) :
    Reads (.node .request) (requestItem p) (p.delivered?.map .plan) := by
  have h := reads_node (c := .request) (n := .request)
    [⟨⟨"plan", .node .plan, none⟩, _, _, reads_plan p⟩] (fun _ _ => rfl) rfl
    (by simp [NodeShape.request])
  refine h.of_eq ?_ ?_
  · rw [requestItem]
    simp only [sentItems, bind_assoc, Outcome.ok_bind]
    rfl
  · simp only [sentSlots]
    cases p.delivered? <;> rfl

theorem toOption_decodeRequest {p : Plan} {i : Item} (h : requestItem p = .ok i)
    (hf : i.fits = true) : (decodeRequest i.encode).toOption = p.delivered? := by
  have hr : ∀ path, (readSlot (.node .request) path i).toOption = p.delivered?.map .plan := by
    have hp := reads_request p
    rw [h] at hp
    exact hp
  rw [decodeRequest, decode_encode hf, Outcome.toOption_bind, hr]
  cases p.delivered? <;> rfl

theorem encodeRequest_of_item {p : Plan} {i : Item} (h : requestItem p = .ok i) :
    encodeRequest p = if i.fits then .ok i.encode else fail .badValue := by
  rw [encodeRequest, h, Outcome.ok_bind]

end Wire
end LazyQuery
