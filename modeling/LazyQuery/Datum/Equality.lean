import LazyQuery.Datum
import LazyQuery.Number.Double

/-! Equality of values. Numbers of all kinds are equal when they denote the same number; what is no
number equals nothing. Moments with an offset are compared in universal time. -/
namespace LazyQuery

/-- A number of any kind, exactly. -/
inductive Quantity
  | ratio (num : Int) (den : Nat)
  | infinite (negative : Bool)
  | undefined

namespace Quantity

def ofFloat (x : Float) : Quantity :=
  match Number.parts? x with
  | none => if x.isNaN then .undefined else .infinite (Number.isNegative x)
  | some p =>
    let size : Int := p.whole * 2 ^ p.exponent.toNat
    .ratio (if p.negative then -size else size) (2 ^ (-p.exponent).toNat)

def ofDecimal (d : Decimal) : Quantity :=
  let size : Int := d.coefficient * 10 ^ d.exponent.toNat
  .ratio (if d.negative then -size else size) (10 ^ (-d.exponent).toNat)

def equal : Quantity → Quantity → Bool
  | .ratio a b, .ratio c d => a * d = c * b
  | .infinite p, .infinite q => p = q
  | _, _ => false

end Quantity

namespace Datum

def quantity? : Datum → Option (Quantity × Quantity)
  | .bool b => some (.ratio (if b then 1 else 0) 1, .ratio 0 1)
  | .int i => some (.ratio i 1, .ratio 0 1)
  | .float x => some (.ofFloat x, .ratio 0 1)
  | .complex re im => some (.ofFloat re, .ofFloat im)
  | .decimal d => some (.ofDecimal d, .ratio 0 1)
  | _ => none

def equalMoments (m n : Calendar.Moment) : Bool :=
  m.offset.isSome = n.offset.isSome && m.universal = n.universal

def equalNumbers (a b : Quantity × Quantity) : Bool := a.1.equal b.1 && a.2.equal b.2

mutual
def equal : Datum → Datum → Bool
  | .null, .null => true
  | .text s, .text t => s = t
  | .bytes bs, .bytes cs => bs = cs
  | .date d, .date e => d = e
  | .moment m, .moment n => equalMoments m n
  | .time t, .time u => t = u
  | .span t, .span u => t = u
  | .list as, .list bs => equalItems as bs
  | .record es, .record fs => es.length = fs.length && allEntries es fs
  | .type t, .type u => t.equal u
  | .schema s, .schema t => Schema.equal s t
  | .batch b, .batch c => b.equal c
  | a, b =>
    match a.quantity?, b.quantity? with
    | some p, some q => equalNumbers p q
    | _, _ => false

def equalItems : List Datum → List Datum → Bool
  | [], [] => true
  | a :: as, b :: bs => a.equal b && equalItems as bs
  | _, _ => false

def allEntries : List (Datum × Datum) → List (Datum × Datum) → Bool
  | [], _ => true
  | (k, v) :: es, fs => fs.any (fun (l, w) => k.equal l && v.equal w) && allEntries es fs
end

end Datum

namespace Quantity

def tablePrime : Nat := 2 ^ 61 - 1

/-- Both numbers have the same residue; the sign belongs to it unless it is zero. -/
def congruent (a : Int) (b : Nat) (c : Int) (d : Nat) : Bool :=
  let p := a.natAbs * d % tablePrime
  p = c.natAbs * b % tablePrime && (p = 0 || (a < 0) = (c < 0))

/-- Two numbers share their place in a table: congruent ones do, and so do minus one and minus
two. -/
def sharesPlace : Quantity → Quantity → Bool
  | .ratio a b, .ratio c d =>
    congruent a b c d ||
      congruent a b (-1) 1 && congruent c d (-2) 1 ||
      congruent a b (-2) 1 && congruent c d (-1) 1
  | .infinite p, .infinite q => p = q
  | _, _ => false

end Quantity

namespace Datum

/-- Values that can change have no place in a table. -/
def hasPlace : Datum → Bool
  | .list _ | .record _ | .batch _ => false
  | _ => true

mutual
/-- Whether a value can be a key. In a key a list cannot change, so that only its members matter. -/
def isKey : Datum → Bool
  | .list ds => allKeys ds
  | .record _ | .batch _ => false
  | _ => true

def allKeys : List Datum → Bool
  | [] => true
  | d :: ds => d.isKey && allKeys ds
end

def sharesPlace (a b : Datum) : Bool :=
  match a, b with
  | .complex .., _ | _, .complex .. => a.equal b
  | _, _ =>
    match a.quantity?, b.quantity? with
    | some p, some q => p.1.sharesPlace q.1
    | _, _ => a.equal b

end Datum
end LazyQuery
