import LazyQuery.Engine.Export
import LazyQuery.Engine.Planning

/-! What the stages of an engine hand to one another. -/
namespace LazyQuery

/-- The form in which an engine holds a plan between two of its stages. -/
inductive Artifact
  /-- A relation and the schema that its rows have to be given. -/
  | relation (relation : Engine.Relation) (schema : Schema)
  /-- The same with the size of the batches that are wanted. -/
  | program (relation : Engine.Relation) (schema : Schema) (batchSize : Int)
  /-- A form that only the engine that made it understands. -/
  | sealed (name : String)

def Artifact.text : Artifact → String
  | .relation _ s => "PolarsPlan(" ++ toString s.length ++ " columns)"
  | .program _ _ batchSize => "PolarsExecutable(batch_size=" ++ toString batchSize ++ ")"
  | .sealed name => name

namespace Engine

def execute (files : Files) (r : Relation) (s : Schema) (batchSize : Int) :
    Outcome (List Batch) := do
  let (h, _, columns) ← r.collect files
  Export.batches s ((h.map fun c => c.2.exported).zip (columns.map fun cells => [cells])) batchSize

/-- The first stage: a plan becomes a relation. -/
def prepare (p : Plan) : Outcome Artifact := do
  let (r, _) ← relationOf p
  .ok (.relation r (← p.schema))

end Engine
end LazyQuery
