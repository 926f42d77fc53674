import LazyQuery.Expr
import LazyQuery.Fault

/-! The texts of expressions: the full form, which names each kind of node, and the short form that
an explained plan shows. -/
namespace LazyQuery.Expr

mutual
def fullText : Expr → String
  | .column i => "Column(#" ++ toString i ++ ")"
  | .literal v t => "Literal(" ++ v.exact ++ ": " ++ t.text ++ ")"
  | .wildcard => "Wildcard"
  | .aggregate name args _ =>
    "AggregateFunction(" ++ name ++ ", args=[" ++ ", ".intercalate (fullTexts args) ++ "])"
  | .binary l op r => "BinaryExpr(" ++ l.fullText ++ " " ++ op ++ " " ++ r.fullText ++ ")"
  | .not e => "Not(expr=" ++ e.fullText ++ ")"
  | .isNull e => "IsNull(expr=" ++ e.fullText ++ ")"
  | .isNotNull e => "IsNotNull(expr=" ++ e.fullText ++ ")"
  | .cast e t => "Cast(expr=" ++ e.fullText ++ ", dtype=" ++ t.fullText ++ ")"
  | .alias e name => "Alias(expr=" ++ e.fullText ++ ", name=" ++ Text.quoted name ++ ")"
  | .bare => "Expr()"

def fullTexts : List Expr → List String
  | [] => []
  | e :: es => e.fullText :: fullTexts es
end

def kind : Expr → String
  | .column _ => "Column"
  | .literal .. => "Literal"
  | .wildcard => "Wildcard"
  | .aggregate .. => "AggregateFunction"
  | .binary .. => "BinaryExpr"
  | .not _ => "Not"
  | .isNull _ => "IsNull"
  | .isNotNull _ => "IsNotNull"
  | .cast .. => "Cast"
  | .alias .. => "Alias"
  | .bare => "Expr"

mutual
def values : Expr → List Datum
  | .literal v _ => [v]
  | .column _ | .wildcard | .bare => []
  | .aggregate _ args _ => valuesOfAll args
  | .binary l _ r => l.values ++ r.values
  | .not e | .isNull e | .isNotNull e | .cast e _ | .alias e _ => e.values

def valuesOfAll : List Expr → List Datum
  | [] => []
  | e :: es => e.values ++ valuesOfAll es
end

mutual
/-- The short form. An expression of no kind has none. -/
def text : Expr → Outcome String
  | .column i => .ok ("#" ++ toString i)
  | .literal v t => .ok (t.text ++ "(" ++ v.exact ++ ")")
  | .wildcard => .ok "*"
  | .aggregate name args _ => do .ok (name ++ "(" ++ ", ".intercalate (← texts args) ++ ")")
  | .binary l op r => do
    let left ← l.text
    let right ← r.text
    .ok (left ++ " " ++ op ++ " " ++ right)
  | .not e => do .ok ("NOT " ++ (← e.text))
  | .isNull e => do .ok ((← e.text) ++ " IS NULL")
  | .isNotNull e => do .ok ((← e.text) ++ " IS NOT NULL")
  | .cast e t => do .ok ("CAST(" ++ (← e.text) ++ " AS " ++ t.text ++ ")")
  | .alias e name => do .ok ((← e.text) ++ " AS " ++ name)
  | .bare => .error (.unknownExpression "Expr")

def texts : List Expr → Outcome (List String)
  | [] => .ok []
  | e :: es => do
    let s ← e.text
    .ok (s :: (← texts es))
end

end LazyQuery.Expr
