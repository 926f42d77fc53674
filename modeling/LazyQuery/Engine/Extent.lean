import LazyQuery.Engine.Formula

/-! The values of formulas. A cell that cannot be computed is a failure that stays in its place: it
is raised when the cell is asked for, by an aggregate, a group key, a predicate or the result, and
never if the cell is dropped first. -/
namespace LazyQuery.Engine

abbrev Deferred := Outcome Cell

def settle (cs : List Deferred) : Outcome (List Cell) := cs.mapM id

/-- The groups that rows are divided into, by the number of each row's group. -/
structure Partition where
  owner : List Nat
  count : Nat

namespace Partition

def gather {α : Type} (p : Partition) (group : Nat) (xs : List α) : List α :=
  ((xs.zip p.owner).filter fun e => e.2 = group).map (·.1)

def split {α : Type} (p : Partition) (xs : List α) : List (List α) :=
  (List.range p.count).map fun g => p.gather g xs

end Partition

/-- One cell for everything, one for each row, or one for each group. -/
inductive Extent
  | one (cell : Deferred)
  | rows (cells : List Deferred)
  | groups (cells : List Deferred)

def applyKernel (k : Kernel) (x y : Deferred) : Deferred := do .ok (k.apply (← x) (← y))

def applyScalar (k : Kernel) (x y : Deferred) : Deferred := do .ok (k.applyScalar (← x) (← y))

/-- A column and one value on its right take the kernel's form for that, except for a column of one
row. -/
def againstOne (k : Kernel) (xs : List Deferred) (y : Deferred) : List Deferred :=
  match xs with
  | [x] => [applyKernel k x y]
  | xs => xs.map fun x => applyScalar k x y

def Partition.spread (p : Partition) (gs : List Deferred) : List Deferred :=
  p.owner.map fun g => (gs[g]?).getD (.ok .null)

namespace Extent

def map (f : Cell → Deferred) : Extent → Extent
  | .one c => .one (c >>= f)
  | .rows cs => .rows (cs.map (· >>= f))
  | .groups cs => .groups (cs.map (· >>= f))

def combine (p : Partition) (k : Kernel) : Extent → Extent → Extent
  | .one x, .one y => .one (applyKernel k x y)
  | .one x, .rows ys => .rows (ys.map (applyKernel k x))
  | .one x, .groups ys => .groups (ys.map (applyKernel k x))
  | .rows xs, .one y => .rows (againstOne k xs y)
  | .groups xs, .one y => .groups (againstOne k xs y)
  | .rows xs, .rows ys => .rows (xs.zipWith (applyKernel k) ys)
  | .groups xs, .groups ys => .groups (xs.zipWith (applyKernel k) ys)
  | .rows xs, .groups ys => .rows (xs.zipWith (applyKernel k) (p.spread ys))
  | .groups xs, .rows ys => .rows ((p.spread xs).zipWith (applyKernel k) ys)

/-- A cell for each of `n` rows. -/
def atRows (n : Nat) : Extent → List Deferred
  | .one c => List.replicate n c
  | .rows cs | .groups cs => cs

/-- A cell for each group; the cells of a group's rows become one list. -/
def atGroups (p : Partition) : Extent → List Deferred
  | .one c => List.replicate p.count c
  | .groups cs => cs
  | .rows cs => (p.split cs).map fun members => do .ok (.list (← settle members))

end Extent

def reduceCells (r : Reduction) (t : ColumnType) (cs : List Deferred) : Deferred := do
  .ok (r.apply t (← settle cs))

/-- An aggregate over everything, or over each group where there are groups. One cell for
everything counts once. -/
def Extent.reduce (groups : Option Partition) (r : Reduction) (t : ColumnType) : Extent → Extent
  | .one c => .one (reduceCells r t [c])
  | .groups cs => .groups (cs.map fun c => reduceCells r t [c])
  | .rows cs =>
    match groups with
    | none => .one (reduceCells r t cs)
    | some p => .groups ((p.split cs).map (reduceCells r t))

/-- Least and greatest of lists and structs exist within groups only, where they are null. -/
def reducible (grouped : Bool) (r : Reduction) (t : ColumnType) : Bool :=
  grouped || !t.isNested || (r ≠ .min && r ≠ .max)

/-- The value of a formula over columns of cells, in groups or not. -/
def Formula.eval (groups : Option Partition) (columns : List (List Deferred)) :
    Formula → Outcome Extent
  | .column i =>
    match columns[i]? with
    | some cs => .ok (.rows cs)
    | none => fail .missingColumn
  | .constant c => .ok (.one (.ok c))
  | .cast s t f => do .ok ((← f.eval groups columns).map (castCell s t))
  | .combine k l r => do
    let a ← l.eval groups columns
    let b ← r.eval groups columns
    .ok (a.combine (groups.getD ⟨[], 0⟩) k b)
  | .negate t f => do .ok ((← f.eval groups columns).map fun c => .ok (Engine.negate t c))
  | .isNull f => do .ok ((← f.eval groups columns).map fun c => .ok (.bool c.isNull))
  | .isNotNull f => do .ok ((← f.eval groups columns).map fun c => .ok (.bool !c.isNull))
  | .reduce r t f => do
    let e ← f.eval groups columns
    if reducible groups.isSome r t then .ok (e.reduce groups r t) else fail .invalidOperation

end LazyQuery.Engine
