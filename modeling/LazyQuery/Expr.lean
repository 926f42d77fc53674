import LazyQuery.Datum

/-! Expressions over the columns of one input. Columns are named by position; every other name is
only for the reader. -/
namespace LazyQuery

inductive Expr
  | column (index : Int)
  | literal (value : Datum) (type : DataType)
  | wildcard
  | aggregate (name : String) (args : List Expr) (returns : DataType)
  | binary (left : Expr) (op : String) (right : Expr)
  | not (inner : Expr)
  | isNull (inner : Expr)
  | isNotNull (inner : Expr)
  | cast (inner : Expr) (type : DataType)
  | alias (inner : Expr) (name : String)
  /-- An expression of no kind. It can be built and sent, never derived or run. -/
  | bare

/-- The operators between two expressions. -/
inductive Operator
  | eq | ne | lt | le | gt | ge
  | and | or
  | add | sub | mul | div | mod
deriving DecidableEq, Repr

namespace Operator

def text : Operator → String
  | .eq => "==" | .ne => "!=" | .lt => "<" | .le => "<=" | .gt => ">" | .ge => ">="
  | .and => "&" | .or => "|"
  | .add => "+" | .sub => "-" | .mul => "*" | .div => "/" | .mod => "%"

def all : List Operator :=
  [.eq, .ne, .lt, .le, .gt, .ge, .and, .or, .add, .sub, .mul, .div, .mod]

def ofText? (s : String) : Option Operator := all.find? (·.text = s)

theorem ofText?_text (op : Operator) : ofText? op.text = some op := by
  cases op <;> decide

theorem text_of_ofText? {s : String} {op : Operator} (h : ofText? s = some op) : op.text = s := by
  simpa using List.find?_some h

def isComparison : Operator → Bool
  | .eq | .ne | .lt | .le | .gt | .ge => true
  | _ => false

def isLogical : Operator → Bool
  | .and | .or => true
  | _ => false

end Operator

namespace Expr

def children : Expr → List Expr
  | .binary l _ r => [l, r]
  | .aggregate _ args _ => args
  | .not e | .isNull e | .isNotNull e | .cast e _ | .alias e _ => [e]
  | .column _ | .literal .. | .wildcard | .bare => []

mutual
def columns : Expr → List Int
  | .column i => [i]
  | .binary l _ r => l.columns ++ r.columns
  | .aggregate _ args _ => columnsOfAll args
  | .not e | .isNull e | .isNotNull e | .cast e _ | .alias e _ => e.columns
  | .literal .. | .wildcard | .bare => []

def columnsOfAll : List Expr → List Int
  | [] => []
  | e :: es => e.columns ++ columnsOfAll es
end

theorem columnsOfAll_eq_flatMap (es : List Expr) : columnsOfAll es = es.flatMap columns := by
  induction es with
  | nil => rfl
  | cons e es ih => simp [columnsOfAll, ih]

mutual
def hasWildcard : Expr → Bool
  | .wildcard => true
  | .binary l _ r => l.hasWildcard || r.hasWildcard
  | .aggregate _ args _ => anyWildcard args
  | .not e | .isNull e | .isNotNull e | .cast e _ | .alias e _ => e.hasWildcard
  | .column _ | .literal .. | .bare => false

def anyWildcard : List Expr → Bool
  | [] => false
  | e :: es => e.hasWildcard || anyWildcard es
end

theorem anyWildcard_eq_any (es : List Expr) : anyWildcard es = es.any hasWildcard := by
  induction es with
  | nil => rfl
  | cons e es ih => simp [anyWildcard, ih]

def isWildcard : Expr → Bool
  | .wildcard => true
  | _ => false

theorem isWildcard_iff {e : Expr} : e.isWildcard = true ↔ e = .wildcard := by
  cases e <;> simp [isWildcard]

/-- Aggregates declare double precision, whatever they are taken over. -/
def call (name : String) (e : Expr) : Expr := .aggregate name [e] .double

def min (e : Expr) : Expr := call "MIN" e
def max (e : Expr) : Expr := call "MAX" e
def sum (e : Expr) : Expr := call "SUM" e
def count (e : Expr) : Expr := call "COUNT" e
def avg (e : Expr) : Expr := call "AVG" e

/-- One column for each field of an input with `n` fields. -/
def everyColumn (n : Nat) : List Expr := (List.range n).map fun i => .column (Int.ofNat i)

theorem length_everyColumn (n : Nat) : (everyColumn n).length = n := by simp [everyColumn]

theorem getElem?_everyColumn {n k : Nat} (h : k < n) : (everyColumn n)[k]? = some (.column k) := by
  simp [everyColumn, h]

/-- Puts all columns of an input with `n` fields in the place of each wildcard of the list. -/
def expandWildcards (n : Nat) (es : List Expr) : List Expr :=
  es.flatMap fun e => if e.isWildcard then everyColumn n else [e]

theorem expandWildcards_cons (n : Nat) (e : Expr) (es : List Expr) :
    expandWildcards n (e :: es) =
      (if e.isWildcard then everyColumn n else [e]) ++ expandWildcards n es := rfl

theorem expandWildcards_append (n : Nat) (es fs : List Expr) :
    expandWildcards n (es ++ fs) = expandWildcards n es ++ expandWildcards n fs := by
  simp [expandWildcards]

end Expr
end LazyQuery
