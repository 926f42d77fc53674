import LazyQuery.Expr
import LazyQuery.Schema
import LazyQuery.Fault

/-! The output field of an expression: its name, type and nullability, from the fields of its
input. References are checked for the whole list of expressions before any field is derived. -/
namespace LazyQuery.Expr

/-- A comparison or a connective yields a truth value; a quotient, and any arithmetic in which a
floating point number takes part, a double; other arithmetic keeps the type of its left side. -/
def binaryField (op : String) (l r : Field) : Outcome Field :=
  let name := l.name ++ " " ++ op ++ " " ++ r.name
  match Operator.ofText? op with
  | none => .error (.unknownOperator op)
  | some o =>
    if o.isComparison || o.isLogical then .ok ⟨name, .bool, true⟩
    else if o = .div || l.type.isFloating || r.type.isFloating then .ok ⟨name, .double, true⟩
    else .ok ⟨name, l.type, true⟩

mutual
/-- The field of one expression, no reference having been checked. -/
def derive (s : Schema) : Expr → Outcome Field
  | .column i =>
    match s.at? i with
    | some f => .ok f
    | none => fail .positionOutOfRange
  | .literal v t => .ok ⟨v.plain, t, true⟩
  | .aggregate name args returns => do
    let _ ← deriveAll s args
    .ok ⟨name, returns, true⟩
  | .binary l op r => do
    let left ← derive s l
    let right ← derive s r
    binaryField op left right
  | .not e => do .ok ⟨"NOT " ++ (← derive s e).name, .bool, true⟩
  | .isNull e => do .ok ⟨(← derive s e).name ++ " IS NULL", .bool, false⟩
  | .isNotNull e => do .ok ⟨(← derive s e).name ++ " IS NOT NULL", .bool, false⟩
  | .cast e t => do
    let inner ← derive s e
    .ok { inner with type := t }
  | .alias e name => do
    let inner ← derive s e
    .ok { inner with name := name }
  | .wildcard => .error (.schema { misplacedWildcard := true })
  | .bare => .error (.unknownExpression "Expr")

def deriveAll (s : Schema) : List Expr → Outcome (List Field)
  | [] => .ok []
  | e :: es => do
    let f ← derive s e
    .ok (f :: (← deriveAll s es))
end

/-- The column positions outside an input with `n` fields, each once, in order of occurrence. -/
def outOfRange (n : Nat) (es : List Expr) : List Int :=
  ((es.flatMap columns).filter fun i => !Schema.inRange n i).eraseDups

/-- All columns exist, and no wildcard is left. -/
def checkReferences (n : Nat) (es : List Expr) : Outcome Unit :=
  let bad := outOfRange n es
  if !bad.isEmpty then .error (.schema { invalidIndices := bad, fieldCount := some n })
  else if es.any hasWildcard then .error (.schema { misplacedWildcard := true })
  else .ok ()

def field (s : Schema) (e : Expr) : Outcome Field := do
  checkReferences s.length [e]
  derive s e

def fields (s : Schema) (es : List Expr) : Outcome Schema := do
  checkReferences s.length es
  deriveAll s es

end LazyQuery.Expr
