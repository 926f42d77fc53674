import LazyQuery.Plan
import LazyQuery.Wire.Item

/-! Requests as messages. A node is a map that starts with its kind and has every member, in a fixed
order, defaults included. Values that messages have no form for travel as texts. -/
namespace LazyQuery.Wire

def textItem (s : String) : Item := .text s.toUTF8.toList

/-- Whole numbers of up to 64 bits, with or without sign. -/
def intItem (i : Int) : Outcome Item :=
  if -2 ^ 63 ≤ i && i < 2 ^ 64 then .ok (.int i) else fail .overflow

def momentCode : Int := -1

/-- Seconds and nanoseconds since 1970 in 4, 8 or 12 bytes, the shortest that hold them. -/
def momentPayload (micros : Int) : List UInt8 :=
  let seconds := micros / 1000000
  let nanos := (micros % 1000000).toNat * 1000
  if nanos = 0 && 0 ≤ seconds && seconds < 2 ^ 32 then bigEndian 4 seconds.toNat
  else if 0 ≤ seconds && seconds < 2 ^ 34 then bigEndian 8 (nanos * 2 ^ 34 + seconds.toNat)
  else bigEndian 4 nanos ++ bigEndian 8 (seconds % 2 ^ 64).toNat

def momentItem (m : Calendar.Moment) : Item :=
  match m.offset with
  | some _ => .extension momentCode (momentPayload m.universal)
  | none => textItem (m.text "T")

mutual
def itemOf : Datum → Outcome Item
  | .null => .ok .null
  | .bool b => .ok (.bool b)
  | .int i => intItem i
  | .float x => .ok (.float x)
  | .complex .. => .error (.unencodable "complex")
  | .decimal d => .ok (textItem d.text)
  | .text s => .ok (textItem s)
  | .bytes bs => .ok (.bytes bs)
  | .date d => .ok (textItem (Calendar.dateText d))
  | .moment m => .ok (momentItem m)
  | .time t => .ok (textItem (Calendar.timeText t))
  | .span t => .ok (textItem (Calendar.Span.ofMicros t).standardText)
  | .list ds => do .ok (.list (← itemsOf ds))
  | .record es => do .ok (.map (← entriesOf es))
  | .type t => .ok (.type t)
  | .schema s => .ok (.schema s)
  | .batch b => .ok (.batch b)

def itemsOf : List Datum → Outcome (List Item)
  | [] => .ok []
  | d :: ds => do
    let i ← itemOf d
    .ok (i :: (← itemsOf ds))

def entriesOf : List (Datum × Datum) → Outcome (List (Item × Item))
  | [] => .ok []
  | (k, d) :: es => do
    let key ← itemOf k
    let value ← itemOf d
    .ok ((key, value) :: (← entriesOf es))
end

/-- A node: its kind under the given key, then its members. -/
def node (key kind : String) (members : List (String × Item)) : Item :=
  .map ((textItem key, textItem kind) :: members.map fun m => (textItem m.1, m.2))

def exprNode (kind : String) (members : List (String × Item)) : Item := node "kind" kind members

def literalItem (v : Datum) (t : DataType) : Outcome Item := do
  .ok (exprNode "Literal" [("value", ← itemOf v), ("dtype", .type t)])

mutual
def exprItem : Expr → Outcome Item
  | .column i => do .ok (exprNode "Column" [("index", ← intItem i)])
  | .literal v t => literalItem v t
  | .wildcard => .ok (exprNode "Wildcard" [])
  | .aggregate name args returns => do
    .ok (exprNode "AggregateFunction"
      [("name", textItem name), ("args", .list (← exprItems args)),
        ("return_type", .type returns)])
  | .binary l op r => do
    let left ← exprItem l
    let right ← exprItem r
    .ok (exprNode "BinaryExpr" [("left", left), ("op", textItem op), ("right", right)])
  | .not e => do .ok (exprNode "Not" [("expr", ← exprItem e)])
  | .isNull e => do .ok (exprNode "IsNull" [("expr", ← exprItem e)])
  | .isNotNull e => do .ok (exprNode "IsNotNull" [("expr", ← exprItem e)])
  | .cast e t => do .ok (exprNode "Cast" [("expr", ← exprItem e), ("dtype", .type t)])
  | .alias e name => do
    .ok (exprNode "Alias" [("expr", ← exprItem e), ("name", textItem name)])
  | .bare => .ok (exprNode "Expr" [])

def exprItems : List Expr → Outcome (List Item)
  | [] => .ok []
  | e :: es => do
    let i ← exprItem e
    .ok (i :: (← exprItems es))
end

def planNode (kind : String) (members : List (String × Item)) : Item := node "node" kind members

def positionsItem : Option (List Int) → Outcome Item
  | none => .ok .null
  | some ps => do .ok (.list (← ps.mapM intItem))

def scanItem (scan : FileScan) : Outcome Item := do
  .ok (planNode "FileScan"
    [("path", textItem scan.path), ("file_type", textItem scan.format),
      ("schema", .schema scan.schema),
      ("projected_schema", .schema scan.projected),
      ("projection", ← positionsItem scan.projection),
      ("has_header", .bool scan.hasHeader), ("delimiter", textItem scan.delimiter)])

def planItem : Plan → Outcome Item
  | .empty s => .ok (planNode "EmptyRelation" [("schema", .schema s)])
  | .memory batches s =>
    .ok (planNode "MemoryScan" [("batches", .list (batches.map .batch)), ("schema", .schema s)])
  | .file scan => scanItem scan
  | .projection es p s => do
    let exprs ← exprItems es
    let input ← planItem p
    .ok (planNode "Projection" [("expr", .list exprs), ("input", input), ("schema", .schema s)])
  | .selection e p => do
    let expr ← exprItem e
    let input ← planItem p
    .ok (planNode "Selection" [("expr", expr), ("input", input)])
  | .limit e p s => do
    let expr ← exprItem e
    let input ← planItem p
    .ok (planNode "Limit" [("expr", expr), ("input", input), ("schema", .schema s)])
  | .aggregate p gs as s => do
    let input ← planItem p
    let groups ← exprItems gs
    let aggregates ← exprItems as
    .ok (planNode "Aggregate" [("input", input), ("group_expr", .list groups),
      ("aggr_expr", .list aggregates), ("schema", .schema s)])
  | .bare => .ok (planNode "LogicalPlan" [])

/-- The one request there is: the rows of a plan. -/
def requestItem (p : Plan) : Outcome Item := do
  .ok (node "action" "Collect" [("plan", ← planItem p)])

def encodeRequest (p : Plan) : Outcome (List Token) := do
  let item ← requestItem p
  if item.fits then .ok item.encode else fail .badValue

end LazyQuery.Wire
