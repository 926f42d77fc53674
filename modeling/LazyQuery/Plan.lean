import LazyQuery.Expr
import LazyQuery.Fault

/-! Plans: trees of relational operators with one source at the bottom. A node keeps the schema that
was derived when it was built; a selection has its input's. -/
namespace LazyQuery

/-- A file to read: its full schema and the part of it that is wanted. -/
structure FileScan where
  path : String
  format : String
  schema : Schema
  projected : Schema
  projection : Option (List Int) := none
  hasHeader : Bool := true
  delimiter : String := ","
deriving DecidableEq

inductive Plan
  | empty (schema : Schema)
  | memory (batches : List Batch) (schema : Schema)
  | file (scan : FileScan)
  | projection (exprs : List Expr) (input : Plan) (schema : Schema)
  | selection (predicate : Expr) (input : Plan)
  | limit (count : Expr) (input : Plan) (schema : Schema)
  | aggregate (input : Plan) (groups aggregates : List Expr) (schema : Schema)
  /-- A node of no kind. It can be built and sent, never described or run. -/
  | bare

namespace Plan

/-- The plan whose rows a node works on; sources have none. -/
def input? : Plan → Option Plan
  | .projection _ p _ | .selection _ p | .limit _ p _ | .aggregate p .. => some p
  | .empty _ | .memory .. | .file _ | .bare => none

def schema : Plan → Outcome Schema
  | .empty s | .memory _ s | .projection _ _ s | .limit _ _ s | .aggregate _ _ _ s => .ok s
  | .file scan => .ok scan.projected
  | .selection _ p => p.schema
  | .bare => fail .missingMember

def nodes : Plan → List Plan
  | p@(.projection _ q _) | p@(.selection _ q) | p@(.limit _ q _) | p@(.aggregate q ..) =>
    p :: q.nodes
  | p => [p]

def kind : Plan → String
  | .empty _ => "EmptyRelation"
  | .memory .. => "MemoryScan"
  | .file _ => "FileScan"
  | .projection .. => "Projection"
  | .selection .. => "Selection"
  | .limit .. => "Limit"
  | .aggregate .. => "Aggregate"
  | .bare => "LogicalPlan"

end Plan
end LazyQuery
