import LazyQuery.Expr
import LazyQuery.Datum.Equality
import LazyQuery.Fault

/-! Structural equality of expressions. Literal values are compared as values, so equality is
coarser than being the same tree. -/
namespace LazyQuery.Expr

mutual
def equal : Expr → Expr → Bool
  | .column i, .column j => i = j
  | .literal v t, .literal w u => v.equal w && t.equal u
  | .wildcard, .wildcard => true
  | .aggregate m as t, .aggregate n bs u => m = n && equalAll as bs && t.equal u
  | .binary l o r, .binary l₂ o₂ r₂ => l.equal l₂ && o = o₂ && r.equal r₂
  | .not a, .not b | .isNull a, .isNull b | .isNotNull a, .isNotNull b => a.equal b
  | .cast a t, .cast b u => a.equal b && t.equal u
  | .alias a m, .alias b n => a.equal b && m = n
  | .bare, .bare => true
  | _, _ => false

def equalAll : List Expr → List Expr → Bool
  | [], [] => true
  | a :: as, b :: bs => a.equal b && equalAll as bs
  | _, _ => false
end

mutual
def hasPlace : Expr → Bool
  | .literal v _ => v.hasPlace
  | .aggregate _ args _ => allPlaced args
  | .binary l _ r => l.hasPlace && r.hasPlace
  | .not e | .isNull e | .isNotNull e | .cast e _ | .alias e _ => e.hasPlace
  | .column _ | .wildcard | .bare => true

def allPlaced : List Expr → Bool
  | [] => true
  | e :: es => e.hasPlace && allPlaced es
end

mutual
/-- The two expressions come to the same place in a table: they have one shape, and their numbers
share their places. -/
def sharesPlace : Expr → Expr → Bool
  | .column i, .column j => (Datum.int i).sharesPlace (.int j)
  | .literal v t, .literal w u => v.sharesPlace w && t = u
  | .wildcard, .wildcard => true
  | .aggregate m as t, .aggregate n bs u => m = n && sharePlaces as bs && t = u
  | .binary l o r, .binary l₂ o₂ r₂ => l.sharesPlace l₂ && o = o₂ && r.sharesPlace r₂
  | .not a, .not b | .isNull a, .isNull b | .isNotNull a, .isNotNull b => a.sharesPlace b
  | .cast a t, .cast b u => a.sharesPlace b && t = u
  | .alias a m, .alias b n => a.sharesPlace b && m = n
  | .bare, .bare => true
  | _, _ => false

def sharePlaces : List Expr → List Expr → Bool
  | [], [] => true
  | a :: as, b :: bs => a.sharesPlace b && sharePlaces as bs
  | _, _ => false
end

/-- Whether two expressions come to the same place in a table; fails where one has no place. -/
def samePlace (a b : Expr) : Outcome Bool :=
  if a.hasPlace && b.hasPlace then .ok (a.sharesPlace b) else fail .mistyped

end LazyQuery.Expr
