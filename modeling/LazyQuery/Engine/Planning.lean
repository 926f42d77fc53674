import LazyQuery.Engine.Relation
import LazyQuery.Plan

/-! Relations for plans. The results of a selection or a grouping are named by position, since the
names that a plan declares may repeat; the declared names come back when the result is exported. -/
namespace LazyQuery.Engine

def positionalName (i : Nat) : String := "_" ++ toString i

def positionalLayout (s : Schema) : Schema :=
  s.mapIdx fun i f => { f with name := positionalName i }

/-- The terms of expressions, named by their positions from `start` on. -/
def positionalTerms (start : Nat) (layout : Schema) (es : List Expr) :
    Outcome (List (String × Term)) :=
  (es.zipIdx start).mapM fun (e, i) => do .ok (positionalName i, ← term layout e)

/-- No rows, and the columns of a schema; of fields of one name only the last counts. -/
def emptyTable (s : Schema) : Outcome Relation := do
  let h := Header.collapse (← s.columns)
  .ok (.table h 0 (h.map fun _ => []))

/-- The rows of stored batches, which must all have the schema. -/
def memoryTable (s : Schema) (batches : List Batch) : Outcome Relation :=
  if batches.isEmpty then emptyTable s
  else if batches.any (·.schema ≠ s) then fail .invalidData
  else do
    .ok (.table (← storedHeader s) (Batch.totalRows batches) (storedColumns s batches))

def fileTable (scan : FileScan) : Outcome Relation :=
  match scan.format with
  | "csv" => do
    let h := Header.collapse (← scan.schema.columns)
    .ok (.delimited scan.path h scan.hasHeader (← Delimited.separatorByte scan.delimiter))
  | "parquet" => .ok (.columnar scan.path)
  | format => .error (.unknownFileKind format)

def fileRelation (scan : FileScan) : Outcome Relation := do
  let r ← fileTable scan
  match scan.projection with
  | some _ => .ok (.select (.names (scan.projected.map (·.name))) r)
  | none => .ok r

def maxRows : Int := 2 ^ 32

def countOf (i : Int) : Outcome Nat :=
  if i < 0 then fail .badValue else if maxRows ≤ i then fail .overflow else .ok i.toNat

/-- The whole number that a value stands for. -/
def wholeOf : Datum → Outcome Int
  | .bool b => .ok (if b then 1 else 0)
  | .int i => .ok i
  | .float x =>
    match Number.truncate? x with
    | some i => .ok i
    | none => if x.isNaN then fail .badValue else fail .overflow
  | .decimal d =>
    let size : Int := d.coefficient * 10 ^ d.exponent.toNat / 10 ^ (-d.exponent).toNat
    .ok (if d.negative then -size else size)
  | .text s =>
    match Number.readInt? s with
    | some i => .ok i
    | none => fail .badValue
  | .bytes bs =>
    match (String.fromUTF8? ⟨bs.toArray⟩).bind Number.readInt? with
    | some i => .ok i
    | none => fail .badValue
  | _ => fail .mistyped

def relationOf : Plan → Outcome (Relation × Schema)
  | .empty s => do .ok (← emptyTable s, s)
  | .memory batches s => do .ok (← memoryTable s batches, s)
  | .file scan => do .ok (← fileRelation scan, scan.projected)
  | .projection es p s => do
    let (r, layout) ← relationOf p
    .ok (.select (.terms (← positionalTerms 0 layout es)) r, positionalLayout s)
  | .selection e p => do
    let (r, layout) ← relationOf p
    .ok (.filter (← term layout e) r, layout)
  | .limit count p _ => do
    let (r, layout) ← relationOf p
    match count with
    | .literal v _ => .ok (.take (← wholeOf v >>= countOf) r, layout)
    | _ => fail .missingMember
  | .aggregate p groups aggregates s => do
    let (r, layout) ← relationOf p
    let ks ← positionalTerms 0 layout groups
    let as ← positionalTerms groups.length layout aggregates
    .ok (if ks.isEmpty then .select (.terms as) r else .group ks as r, positionalLayout s)
  | .bare => .error (.unknownNode "LogicalPlan")

end LazyQuery.Engine
