import LazyQuery.Plan
import LazyQuery.Expr.Equality

/-! Structural equality of plans, with literals and cells compared as values. -/
namespace LazyQuery.Plan

def equalBatches (as bs : List Batch) : Bool :=
  as.length = bs.length && (as.zip bs).all fun (a, b) => a.equal b

def equalScans (a b : FileScan) : Bool :=
  a.path = b.path && a.format = b.format && Schema.equal a.schema b.schema &&
    Schema.equal a.projected b.projected && a.projection = b.projection &&
    a.hasHeader = b.hasHeader && a.delimiter = b.delimiter

def equal : Plan → Plan → Bool
  | .empty s, .empty t => Schema.equal s t
  | .memory as s, .memory bs t => equalBatches as bs && Schema.equal s t
  | .file a, .file b => equalScans a b
  | .projection es p s, .projection fs q t => Expr.equalAll es fs && p.equal q && Schema.equal s t
  | .selection e p, .selection f q => e.equal f && p.equal q
  | .limit e p s, .limit f q t => e.equal f && p.equal q && Schema.equal s t
  | .aggregate p gs as s, .aggregate q hs bs t =>
    p.equal q && Expr.equalAll gs hs && Expr.equalAll as bs && Schema.equal s t
  | .bare, .bare => true
  | _, _ => false

end LazyQuery.Plan
