/-! Families of faults: what a caller can catch them as. -/
namespace LazyQuery

/-- The families that this library adds, under one root. -/
inductive Family
  | root
  | schema
  | configuration
  | notImplemented
  | delegated
  | engine
  | transport
deriving DecidableEq, Repr

namespace Family

def name : Family → String
  | .root => "BallistaError"
  | .schema => "SchemaError"
  | .configuration => "ConfigurationError"
  | .notImplemented => "FeatureNotImplementedError"
  | .delegated => "_DelegatedError"
  | .engine => "EngineError"
  | .transport => "TransportError"

def all : List Family :=
  [.root, .schema, .configuration, .notImplemented, .delegated, .engine, .transport]

def ofName? (s : String) : Option Family := all.find? (·.name = s)

/-- The families of this library that a family belongs to, from itself to the root. -/
def line : Family → List Family
  | .root => [.root]
  | .schema => [.schema, .root]
  | .configuration => [.configuration, .root]
  | .notImplemented => [.notImplemented, .root]
  | .delegated => [.delegated, .root]
  | .engine => [.engine, .delegated, .root]
  | .transport => [.transport, .delegated, .root]

/-- The general families above the root. What is not implemented is also caught as such. -/
def general : Family → List String
  | .notImplemented => ["NotImplementedError", "RuntimeError", "Exception", "BaseException"]
  | _ => ["Exception", "BaseException"]

def names (f : Family) : List String := f.line.map name ++ f.general

theorem root_mem_line (f : Family) : Family.root ∈ f.line := by cases f <;> decide

end Family
end LazyQuery
