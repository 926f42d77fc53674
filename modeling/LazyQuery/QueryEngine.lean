import LazyQuery.Trace

/-! Engines: four stages from a plan to batches, each given what the one before it made. -/
namespace LazyQuery

structure QueryEngine where
  name : String
  prepare : Plan → Traced Artifact
  optimize : Artifact → Traced Artifact
  compile : Artifact → Nat → Traced Artifact
  execute : Artifact → Traced (List Batch)

namespace QueryEngine

/-- Calls the stages in order, each once, up to the first that fails. -/
def run (e : QueryEngine) (p : Plan) (batchSize : Nat) : Traced (List Batch) := do
  Traced.emit (.prepare p)
  let native ← e.prepare p
  Traced.emit (.optimize native)
  let better ← e.optimize native
  Traced.emit (.compile better batchSize)
  let program ← e.compile better batchSize
  Traced.emit (.execute program)
  e.execute program

/-- An artifact that the engine did not make itself has no meaning for it. -/
def refuse {α : Type} : Traced α := .silent (fail .missingMember)

/-- The plan is left as it is; the types of the whole of it must be found. -/
def optimizeStandard (files : Files) : Artifact → Traced Artifact
  | .relation r s => do
    let _ ← Traced.silent (r.header files)
    Traced.emit (.record "ballista_polars.engine" .debug "Optimized plan:")
    Traced.done (.relation r s)
  | _ => refuse

def compileStandard : Artifact → Nat → Traced Artifact
  | .relation r s, batchSize => .done (.program r s batchSize)
  | _, _ => refuse

def executeStandard (files : Files) : Artifact → Traced (List Batch)
  | .program r s batchSize => .silent (Engine.execute files r s batchSize)
  | _ => refuse

/-- The engine that is used where no other is given. -/
def standard (files : Files) : QueryEngine where
  name := "PolarsEngine"
  prepare p := .silent (Engine.prepare p)
  optimize := optimizeStandard files
  compile := compileStandard
  execute := executeStandard files

end QueryEngine
end LazyQuery
