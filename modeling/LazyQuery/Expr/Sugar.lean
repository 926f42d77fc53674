import LazyQuery.Expr
import LazyQuery.Datum.Typing

/-! Building operators from expressions and plain values. A plain value becomes a literal of the
type it is held in. -/
namespace LazyQuery.Expr

/-- One side of an operator. -/
inductive Operand
  | expr (e : Expr)
  | value (v : Datum)

def literalOf (v : Datum) (type : Option DataType) : Outcome Expr :=
  match type with
  | some t => .ok (.literal v t)
  | none => do .ok (.literal v (← v.inferType))

def Operand.toExpr : Operand → Outcome Expr
  | .expr e => .ok e
  | .value v => literalOf v none

def mirrored? : Operator → Option Operator
  | .lt => some .gt
  | .gt => some .lt
  | .le => some .ge
  | .ge => some .le
  | _ => none

/-- An expression on the left takes any operator. A plain value on the left takes those arithmetic
operators that keep their sides, and comparisons, which are turned round. -/
def combine (op : Operator) : Operand → Operand → Outcome Expr
  | .expr l, r => do .ok (.binary l op.text (← r.toExpr))
  | .value v, .expr r =>
    match op, mirrored? op with
    | _, some m => do .ok (.binary r m.text (← literalOf v none))
    | .add, _ | .sub, _ | .mul, _ | .div, _ => do
      .ok (.binary (← literalOf v none) op.text r)
    | .eq, _ | .ne, _ => fail .missingMember
    | _, _ => fail .mistyped
  | .value _, .value _ => fail .mistyped

end LazyQuery.Expr
