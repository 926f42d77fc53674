import LazyQuery.Plan
import LazyQuery.Expr.Text

/-! The texts of plans: the explained tree, one node on a line, and the full form of a node. -/
namespace LazyQuery.Plan

def commaSeparated (es : List Expr) : Outcome String := do
  .ok (", ".intercalate (← Expr.texts es))

def positionsText (ps : List Int) : String := "[" ++ ", ".intercalate (ps.map toString) ++ "]"

/-- A node without its inputs. -/
def describe : Plan → Outcome String
  | .empty _ => .ok "EmptyRelation"
  | .memory batches _ => .ok ("MemoryScan: batches=" ++ toString batches.length)
  | .file scan =>
    .ok ("FileScan: path=" ++ scan.path ++ ", file_type=" ++ scan.format ++ ", projection=" ++
      (scan.projection.map positionsText).getD "None")
  | .projection es _ _ => do .ok ("Projection: " ++ (← commaSeparated es))
  | .selection e _ => do .ok ("Selection: " ++ (← e.text))
  | .limit (.literal v _) _ _ => .ok ("Limit: " ++ v.plain)
  | .limit .. => fail .missingMember
  | .aggregate _ groups aggregates _ => do
    let group ← commaSeparated groups
    let aggr ← commaSeparated aggregates
    .ok ("Aggregate: groupBy=[" ++ group ++ "], aggr=[" ++ aggr ++ "]")
  | .bare => .error (.unknownNode "LogicalPlan")

/-- The values of the literals in a node without its inputs. -/
def values : Plan → List Datum
  | .projection es _ _ => Expr.valuesOfAll es
  | .selection e _ | .limit e _ _ => e.values
  | .aggregate _ groups aggregates _ => Expr.valuesOfAll groups ++ Expr.valuesOfAll aggregates
  | .empty _ | .memory .. | .file _ | .bare => []

/-- The explained tree: each node two spaces further in than the node that reads from it. -/
def explain (indent : Nat) : Plan → Outcome String
  | p@(.projection _ q _) | p@(.selection _ q) | p@(.limit _ q _) | p@(.aggregate q ..) => do
    let line ← p.describe
    let rest ← q.explain (indent + 1)
    .ok (indented indent line ++ "\n" ++ rest)
  | p => do .ok (indented indent (← p.describe))

/-- Several items in parentheses; a single one keeps a comma. -/
def tupleText (items : List String) : String :=
  match items with
  | [item] => "(" ++ item ++ ",)"
  | items => "(" ++ ", ".intercalate items ++ ")"

def boolText (b : Bool) : String := if b then "True" else "False"

def fullText : Plan → String
  | .empty s => "EmptyRelation(schema=" ++ s.text ++ ")"
  | .memory batches _ =>
    "MemoryScan(" ++ toString batches.length ++ " batches, " ++
      toString (Batch.totalRows batches) ++ " rows)"
  | .file scan =>
    "FileScan(path=" ++ Text.quoted scan.path ++ ", file_type=" ++ Text.quoted scan.format ++
      ", schema=" ++ scan.schema.text ++ ", projected_schema=" ++ scan.projected.text ++
      ", projection=" ++
      (scan.projection.map fun ps => tupleText (ps.map toString)).getD "None" ++
      ", has_header=" ++ boolText scan.hasHeader ++ ", delimiter=" ++
      Text.quoted scan.delimiter ++ ")"
  | .projection es p s =>
    "Projection(expr=" ++ tupleText (Expr.fullTexts es) ++ ", input=" ++ p.fullText ++
      ", schema=" ++ s.text ++ ")"
  | .selection e p => "Selection(expr=" ++ e.fullText ++ ", input=" ++ p.fullText ++ ")"
  | .limit e p s =>
    "Limit(expr=" ++ e.fullText ++ ", input=" ++ p.fullText ++ ", schema=" ++ s.text ++ ")"
  | .aggregate p gs as s =>
    "Aggregate(input=" ++ p.fullText ++ ", group_expr=" ++ tupleText (Expr.fullTexts gs) ++
      ", aggr_expr=" ++ tupleText (Expr.fullTexts as) ++ ", schema=" ++ s.text ++ ")"
  | .bare => "LogicalPlan()"

end LazyQuery.Plan
