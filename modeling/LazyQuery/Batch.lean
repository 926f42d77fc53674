import LazyQuery.Cell
import LazyQuery.DataType.Equality

/-! Record batches: a schema and, for each of its fields, a column of cells, all equally long. -/
namespace LazyQuery

structure Batch where
  schema : Schema
  rows : Nat
  columns : List (List Cell)
  width : columns.length = schema.length
  height : ∀ c ∈ columns, c.length = rows
deriving DecidableEq

mutual
/-- Equality of what cells denote: what is no number equals nothing, and zero has no sign. -/
def Cell.equal : Cell → Cell → Bool
  | .float x, .float y => x == y
  | .list as, .list bs => equalCells as bs
  | .struct as, .struct bs => equalCells as bs
  | .list _, _ | .struct _, _ | .float _, _ => false
  | a, b => a.same b

def equalCells : List Cell → List Cell → Bool
  | [], [] => true
  | a :: as, b :: bs => a.equal b && equalCells as bs
  | _, _ => false
end

namespace Batch

def equal (a b : Batch) : Bool :=
  Schema.equal a.schema b.schema && a.rows = b.rows &&
    (a.columns.zip b.columns).all fun (c, d) => equalCells c d

/-- A batch of the given columns, if there is one for each field and all have one length. -/
def ofColumns? (schema : Schema) (columns : List (List Cell)) : Option Batch :=
  let rows := (columns.head?.map List.length).getD 0
  if h : columns.length = schema.length ∧ ∀ c ∈ columns, c.length = rows then
    some ⟨schema, rows, columns, h.1, h.2⟩
  else none

def stack (width : Nat) (batches : List Batch) : List (List Cell) :=
  (List.range width).map fun k => batches.flatMap fun b => b.columns.getD k []

def totalRows (batches : List Batch) : Nat := batches.foldl (fun n b => n + b.rows) 0

end Batch
end LazyQuery
