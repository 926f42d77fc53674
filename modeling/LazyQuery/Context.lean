import LazyQuery.Client
import LazyQuery.QueryEngine
import LazyQuery.Settings

/-! Contexts: where plans are run. A context is bound to one place for good; asking for the rows of
a plan either yields batches or fails with a fault of this library's own. -/
namespace LazyQuery

/-- The engine of a context: the standard one, none at all, or one of the user's. -/
inductive EngineChoice
  | standard
  | missing
  | custom (engine : QueryEngine)

inductive Context
  /-- In this process. -/
  | here (settings : Assignments) (engine : EngineChoice)
  /-- At one host and port. -/
  | remote (host : Datum) (port : Nat) (settings : Assignments) (client : Client)
  /-- At the host and port that the settings of a cluster name. -/
  | cluster (master : String) (settings : Assignments) (client : Client)
  /-- Nowhere: a value that is no place. -/
  | nowhere (value : Datum)

namespace Context

def hostKey : String := "spark.ballista.host"
def portKey : String := "spark.ballista.port"

def address (settings : Assignments) : Outcome (Datum × Nat) :=
  match settings.get? hostKey, settings.get? portKey with
  | some host, some port => do .ok (host, ← readPort port portKey)
  | host, port =>
    .error (.configuration (.missingSettings
      ((if host.isNone then [hostKey] else []) ++ if port.isNone then [portKey] else [])))

/-- A context at a host; the port must be a whole number in the range of ports. -/
def atHost (host : Datum) (port : Datum) (settings : Assignments) (client : Client) :
    Outcome Context :=
  match port with
  | .int _ => do .ok (.remote host (← readPort port "port") settings client)
  | d => .error (.portNotInteger d.kind)

def stateText : Context → String
  | .here settings _ => "Local \x7b settings: " ++ settings.text ++ " \x7d"
  | .remote host port settings _ =>
    "Remote \x7b host: " ++ host.exact ++ ", port: " ++ toString port ++ ", settings: " ++
      settings.text ++ " \x7d"
  | .cluster master settings _ =>
    "Spark \x7b master: " ++ Text.quoted master ++ ", spark_settings: " ++ settings.text ++ " \x7d"
  | .nowhere value => value.exact

def text (c : Context) : String := "Context(" ++ c.stateText ++ ")"

/-- The same place with equal settings, whatever engine or client is used. -/
def equal : Context → Context → Bool
  | .here s _, .here t _ => s.equal t
  | .remote h p s _, .remote i q t _ => h.equal i && p = q && s.equal t
  | .cluster m s _, .cluster n t _ => m = n && s.equal t
  | .nowhere v, .nowhere w => v.equal w
  | _, _ => false

def logger : String := "ballista.context"

def chosen (files : Files) : EngineChoice → Outcome QueryEngine
  | .standard => .ok (.standard files)
  | .missing => .error (.configuration .noEngine)
  | .custom e => .ok e

/-- In this process: the batch size first, then the stages of the engine. -/
def collectHere (files : Files) (settings : Assignments) (choice : EngineChoice) (p : Plan) :
    Traced (List Batch) := do
  let size ← Traced.silent (Settings.batchSize ⟨settings, standardCatalog⟩)
  Traced.emit (.record logger .debug ("batch_size=" ++ toString size))
  let engine ← Traced.silent (chosen files choice)
  Traced.emit (.record logger .info ("Executing plan locally with " ++ engine.name))
  (engine.run p size).mapFault Fault.fromEngine

def dispatch (kind : String) (host : Datum) (port : Nat) (client : Client) (p : Plan) :
    Traced (List Batch) := do
  Traced.emit (.record logger .info
    ("Dispatching Collect to " ++ kind ++ " executor at " ++ host.plain ++ ":" ++ toString port))
  Traced.emit (.request host port p)
  (client.request host port p).mapFault Fault.fromTransport

/-- The rows of a plan, asked for from inside an event loop that is already running. -/
def collectAsync (files : Files) (c : Context) (p : Plan) : Traced (List Batch) :=
  match c with
  | .here settings choice => collectHere files settings choice p
  | .remote host port _ client => dispatch "Remote" host port client p
  | .cluster master settings client => do
    let (host, port) ← Traced.silent (address settings)
    Traced.emit (.record logger .debug ("Spark master " ++ master ++ " resolved executor " ++
      host.plain ++ ":" ++ toString port))
    dispatch "Spark" host port client p
  | .nowhere value => .silent (.error (.unknownState value.kind))

/-- The rows of a plan, run at the place that the context is bound to. No event loop is opened for a
run in this process. -/
def collect (files : Files) (c : Context) (p : Plan) : Traced (List Batch) :=
  match c with
  | .here settings choice => collectHere files settings choice p
  | c => collectAsync files c p

/-- What an executor does with a message: it reads the plan, shows it, and runs it in its own
process with settings of its own. -/
def serve (files : Files) (failure : Option Fault) (message : List Wire.Token) :
    Traced (List Batch) := do
  let p ← Traced.silent (Wire.decodeRequest message)
  Traced.emit (.fetch p)
  match failure with
  | some f => .silent (.error f)
  | none => collectHere files [] .standard p

end Context
end LazyQuery
