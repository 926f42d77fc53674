import LazyQuery.Engine.Rows
import LazyQuery.Files

/-! Relations: trees of operators on tables whose columns are named and typed. A relation has
its header without being run. Where it is run, predicates are moved down to where the rows
come from as far as what they ask about is there already, and then a limit to the first rows
as far as possible. -/
namespace LazyQuery.Engine

/-- What a selection makes of a table: named terms, or the columns that names ask for. -/
inductive Choice
  | terms (ts : List (String × Term))
  | names (ns : List String)

inductive Relation
  | table (header : Header) (rows : Nat) (columns : List (List Deferred))
  /-- A delimited text, read when the relation is run. -/
  | delimited (path : String) (header : Header) (hasHeader : Bool) (separator : UInt8)
  /-- A stored batch, read when the relation is run. -/
  | columnar (path : String)
  | select (choice : Choice) (input : Relation)
  | filter (predicate : Term) (input : Relation)
  | take (count : Nat) (input : Relation)
  | group (keys aggregates : List (String × Term)) (input : Relation)

/-- The rows of a relation. -/
structure Table where
  rows : Nat
  columns : List (List Deferred)

def Table.cut (bound : Option Nat) (t : Table) : Table :=
  match bound with
  | some n => ⟨min n t.rows, t.columns.map (·.take n)⟩
  | none => t

namespace Header

def distinct (h : Header) : Outcome Header :=
  if (h.map (·.1)).Nodup then .ok h else fail .repeatedColumn

/-- Gives a name a type, in its old position if it has one. -/
def put (name : String) (type : ColumnType) : Header → Header
  | [] => [(name, type)]
  | e :: h => if e.1 = name then (name, type) :: h else e :: put name type h

/-- Of columns of one name only the last counts, in the position of the first. -/
def collapse (h : Header) : Header := h.foldl (fun found e => put e.1 e.2 found) []

end Header

/-- The columns of a stored batch. A column without a name is named for its position. -/
def storedHeader (s : Schema) : Outcome Header :=
  if !allHeld s then fail .invalidOperation
  else Header.distinct (s.mapIdx fun i f =>
    (if f.name = "" then "column_" ++ toString i else f.name, f.type.stored))

def storedColumns (s : Schema) (batches : List Batch) : List (List Deferred) :=
  s.zipWith (fun f cs => cs.map fun c => .ok (f.store c)) (Batch.stack s.length batches)

def findBatch (files : Files) (path : String) : Outcome Batch := do
  match ← files.find path with
  | .columnar b => .ok b
  | .bytes _ => fail .failedComputation

def resolveAll (h : Header) (terms : List (String × Term)) :
    Outcome (List (String × Formula × ColumnType)) :=
  terms.mapM fun (name, t) => do .ok (name, ← resolve h t)

/-- The columns that a name asks for, each under its own name. A star asks for all there are, and a
pattern for all whose names are of it. -/
def askedFor (h : Header) (name : String) : Outcome (List (String × Formula × ColumnType)) :=
  if name = "*" then .ok (h.mapIdx fun i e => (e.1, .column i, e.2))
  else if isPattern name then do
    .ok ((← matching h name).map fun (i, e) => (e.1, .column i, e.2))
  else do
    let (i, t) ← findColumn h name
    .ok [(name, .column i, t)]

def Choice.resolve (h : Header) : Choice → Outcome (List (String × Formula × ColumnType))
  | .terms ts => resolveAll h ts
  | .names ns => do .ok (← ns.mapM (askedFor h)).flatten

/-- The type of an aggregate within groups; what is not one value becomes a list. -/
def groupedType (f : Formula) (t : ColumnType) : ColumnType := if f.isScalar then t else .list t

def kept (verdict : Cell) : Bool :=
  match verdict with
  | .bool b => b
  | _ => false

def Table.keep (t : Table) (verdicts : List Cell) : Table :=
  ⟨verdicts.countP kept, t.columns.map fun xs => ((xs.zip verdicts).filter (kept ·.2)).map
    (·.1)⟩

/-- Predicates as one that is true where all of them are. -/
def Formula.joined (f : Formula) (fs : List Formula) : Formula :=
    fs.foldl (.combine (.connect .and)) f

/-- The rows at which all predicates are true. They are joined, so that each is asked
about every row. -/
def Table.satisfying (t : Table) : List Formula → Outcome Table
  | [] => .ok t
  | f :: fs => do
    .ok (t.keep (← settle ((← (f.joined fs).eval none t.columns).atRows t.rows)))

def Table.pick (predicates : List Formula) (bound : Option Nat) (t : Table) : Outcome Table := do
  .ok ((← t.satisfying predicates).cut bound)

def Extent.isOne : Extent → Bool
  | .one _ => true
  | _ => false

/-- The rows of a list of values: one where each value stands for all rows, none without values. -/
def selected (rows : Nat) (es : List Extent) : Table :=
  let n := if es.isEmpty then 0 else if es.all Extent.isOne then 1 else rows
  ⟨n, es.map (Extent.atRows n)⟩

def sameKey (a b : List Cell) : Bool := compareMembers a b == .eq

def distinctKeys (keys : List (List Cell)) : List (List Cell) := keys.eraseDupsBy sameKey

def Partition.ofKeys (keys : List (List Cell)) : Partition :=
  let groups := distinctKeys keys
  ⟨keys.map fun k => groups.findIdx (sameKey k), groups.length⟩

/-- The cells at each of `n` rows of columns. -/
def rowsOf (n : Nat) (columns : List (List Cell)) : List (List Cell) :=
  (List.range n).map fun i => columns.map fun c => c.getD i .null

def columnsOf (width : Nat) (rows : List (List Cell)) : List (List Cell) :=
  (List.range width).map fun i => rows.map fun r => r.getD i .null

/-- The key of each row. Keys that stand for all rows make one group, even of no rows. -/
def keysOf (rows : Nat) (es : List Extent) : Outcome (List (List Cell)) := do
  let n := if es.all Extent.isOne then 1 else rows
  .ok (rowsOf n (← es.mapM fun e => settle (e.atRows n)))

namespace Relation

def header (files : Files) : Relation → Outcome Header
  | .table h _ _ => .ok h
  | .delimited _ h _ _ => .ok h
  | .columnar path => do storedHeader (← findBatch files path).schema
  | .select choice r => do
    let found ← choice.resolve (← r.header files)
    Header.distinct (found.map fun (name, _, t) => (name, t))
  | .filter p r => do
    let h ← r.header files
    if (← resolve h p).2 = .bool then .ok h else fail .invalidOperation
  | .take _ r => r.header files
  | .group keys aggregates r => do
    let h ← r.header files
    let ks ← resolveAll h keys
    let as ← resolveAll h aggregates
    Header.distinct (ks.map (fun (name, _, t) => (name, t)) ++
      as.map fun (name, f, t) => (name, groupedType f t))

def tighter (bound : Option Nat) (n : Nat) : Nat := (bound.map (min n)).getD n

def isRowByRow (fs : List Formula) : Bool :=
  fs.all Formula.isRowwise && fs.any (fun f => !f.isScalar)

/-- The predicates that a selection hands on to its input, in terms of that, and those
that it does not. -/
def handed (fs predicates : List Formula) : List Formula × List Formula :=
  if isRowByRow fs then
    (predicates.filterMap (·.before? fs), predicates.filter fun p => (p.before? fs).isNone)
  else ([], predicates)

/-- A bound on the result of a selection bounds its input, if each row comes from one row and no
predicate stands in between. -/
def passed (bound : Option Nat) (fs held : List Formula) : Option Nat :=
  if isRowByRow fs && held.isEmpty then bound else none

/-- The first rows of the result at which predicates are true, as many as the bound says. -/
def run (files : Files) (predicates : List Formula) (bound : Option Nat) : Relation →
    Outcome Table
  | .table _ n columns => Table.pick predicates bound ⟨n, columns⟩
  | .delimited path h hasHeader separator => do
    match ← files.find path with
    | .bytes content =>
      let (n, columns) ← readRows (h.map (·.2)) hasHeader
        (if predicates.isEmpty then bound else none) (Delimited.parse .newline separator content)
      Table.pick predicates bound ⟨n, columns⟩
    | .columnar _ => fail .failedComputation
  | .columnar path => do
    let b ← findBatch files path
    Table.pick predicates bound ⟨b.rows, storedColumns b.schema [b]⟩
  | .select choice r => do
    let found ← choice.resolve (← r.header files)
    let fs := found.map (·.2.1)
    let (down, held) := handed fs predicates
    let t ← run files down (passed bound fs held) r
    Table.pick held bound (selected t.rows (← fs.mapM (Formula.eval none t.columns)))
  | .filter p r => do
    let (f, _) ← resolve (← r.header files) p
    if f.isRowwise then run files (f.conjuncts ++ predicates) bound r
    else do Table.pick predicates bound (← (← run files [] none r).satisfying [f])
  | .take n r => do
    if predicates.isEmpty then run files [] (some (tighter bound n)) r
    else Table.pick predicates bound (← run files [] (some n) r)
  | .group keys aggregates r => do
    let h ← r.header files
    let ks ← resolveAll h keys
    let as ← resolveAll h aggregates
    let t ← run files [] none r
    let es ← ks.mapM fun (_, f, _) => f.eval none t.columns
    let rowKeys ← keysOf t.rows es
    let p := if es.all Extent.isOne then ⟨List.replicate t.rows 0, 1⟩ else Partition.ofKeys
      rowKeys
    let found ← as.mapM fun (_, f, _) => f.eval (some p) t.columns
    let keyColumns := (columnsOf ks.length (distinctKeys rowKeys)).map fun c => c.map Except.ok
    Table.pick predicates bound ⟨p.count, keyColumns ++ found.map (Extent.atGroups p)⟩

/-- Header, number of rows and all cells of the result. Nothing is read before the types of the
whole tree have been found. -/
def collect (files : Files) (r : Relation) : Outcome (Header × Nat × List (List Cell)) := do
  let h ← r.header files
  let t ← r.run files [] none
  .ok (h, t.rows, ← t.columns.mapM settle)

end Relation
end LazyQuery.Engine
