import LazyQuery.Datum.Text

/-! Everything that can go wrong, as causes. The wording of a cause is in one place, and only causes
that this library itself detects are worded. -/
namespace LazyQuery

/-- What keeps an expression or a list of batches from fitting a schema. -/
structure SchemaFault where
  invalidIndices : List Int := []
  fieldCount : Option Int := none
  unknownNames : List String := []
  misplacedWildcard : Bool := false
  nonBooleanPredicate : Option String := none
  mismatchedBatches : List Int := []
deriving DecidableEq

namespace SchemaFault

def referencesText (f : SchemaFault) : String :=
  let indices := ", ".intercalate (f.invalidIndices.map fun i => "#" ++ toString i)
  let count := (f.fieldCount.map toString).getD "None"
  "Invalid column references: " ++ indices ++ " (input has " ++ count ++ " fields)"

def part (present : Bool) (text : String) : List String := if present then [text] else []

def parts (f : SchemaFault) : List String :=
  part (!f.invalidIndices.isEmpty) f.referencesText ++
    part (!f.unknownNames.isEmpty) ("Unknown columns: " ++ ", ".intercalate f.unknownNames) ++
    part f.misplacedWildcard "Wildcard is only valid inside a projection list" ++
    (match f.nonBooleanPredicate with
      | some t => part (t ≠ "") ("Filter predicate must be boolean, got " ++ t)
      | none => []) ++
    part (!f.mismatchedBatches.isEmpty)
      ("Record batches " ++ ", ".intercalate (f.mismatchedBatches.map toString) ++
        " do not match the schema of batch 0")

def message (f : SchemaFault) : String :=
  if f.parts.isEmpty then "Schema derivation failed" else " | ".intercalate f.parts

end SchemaFault

/-- A setting or a port that is missing or cannot be used. -/
inductive ConfigurationFault
  | notANumber (key : String) (value : Datum)
  | notPositive (key : String) (size : Option Nat)
  | badPort (source : String) (value : Datum)
  | missingSettings (keys : List String)
  | noEngine

def ConfigurationFault.message : ConfigurationFault → String
  | .notANumber key value =>
    "Setting " ++ Text.quoted key ++ " must be a non-negative integer, got " ++ value.exact
  | .notPositive key size =>
    "Setting " ++ Text.quoted key ++ " must be a positive integer, got " ++
      (size.map toString).getD "None"
  | .badPort source value =>
    source ++ " must be an unsigned integer port, got " ++ value.exact
  | .missingSettings keys => "Missing Spark settings: " ++ ", ".intercalate keys
  | .noEngine =>
    "No local engine available: install polars or pass engine=... to Context.local()"

/-- What a value was expected to be and what it was, in a message read from the wire. -/
inductive MessageFault
  | wrongKind (expected got : String)
  | missingMember (name : String)
  | unknownVariant (name : String)
  | badMoment
  | tooManyNanos
  | momentOutOfRange

def MessageFault.text : MessageFault → String
  | .wrongKind expected got => "Expected \x60" ++ expected ++ "\x60, got \x60" ++ got ++ "\x60"
  | .missingMember name => "Object missing required field \x60" ++ name ++ "\x60"
  | .unknownVariant name => "Invalid value " ++ Text.quoted name
  | .badMoment => "Invalid MessagePack timestamp"
  | .tooManyNanos => "Invalid MessagePack timestamp: nanoseconds out of range"
  | .momentOutOfRange => "Timestamp is out of range"

/-- Failures of the data, of files, of types and of arithmetic. They carry no wording. -/
inductive Lapse
  | invalidData
  | unsupportedConversion
  | mistypedData
  | overflow
  | positionOutOfRange
  | missingMember
  | mistyped
  | badValue
  | badText
  | malformedMessage
  | missingFile
  | failedComputation
  | invalidOperation
  | repeatedColumn
  | differingSchema
  | missingColumn
  | differingLength
  | noData
deriving DecidableEq, Repr

inductive Fault
  | schema (fault : SchemaFault)
  | configuration (fault : ConfigurationFault)
  | lapse (kind : Lapse)
  | unknownOperator (op : String)
  | unknownAggregate (name : String)
  | unknownFileKind (name : String)
  | unknownExpression (kind : String)
  | unknownNode (kind : String)
  | unknownState (kind : String)
  | unmappedType (type : DataType)
  | badLimit (value : Datum)
  | portNotInteger (kind : String)
  | notImplemented (operation state : String)
  | unencodable (kind : String)
  | unexpectedValue (expected got : String)
  | unknownExtension (code : Int)
  | message (fault : MessageFault) (path : String)
  | foreign (kind text : String)
  | engine (cause : Fault) (chained : Bool)
  | transport (cause : Fault) (chained : Bool)

namespace Fault

/-- A collaborator's failure reported under the name of a missing key shows its text quoted. -/
def foreignText (kind text : String) : String :=
  if kind = "KeyError" then Text.quoted text else text

def text? : Fault → Option String
  | .schema f => some f.message
  | .configuration f => some f.message
  | .lapse _ => none
  | .unknownOperator op => some ("Unsupported binary operator: " ++ op)
  | .unknownAggregate name => some ("Unsupported aggregate function: " ++ name)
  | .unknownFileKind name => some ("Unsupported file type: " ++ name)
  | .unknownExpression kind => some ("Unsupported expression type: " ++ kind)
  | .unknownNode kind => some ("Unsupported plan node: " ++ kind)
  | .unknownState kind => some ("Unsupported context state: " ++ kind)
  | .unmappedType t => some ("Unsupported Arrow dtype: " ++ t.text)
  | .badLimit value => some ("limit() expects a non-negative int, got " ++ value.exact)
  | .portNotInteger kind => some ("port must be an int, got " ++ kind)
  | .notImplemented operation state =>
    some (operation ++ "() is not implemented for " ++ state ++ " yet")
  | .unencodable kind => some ("Cannot encode object of type " ++ kind)
  | .unexpectedValue expected got => some ("Expected " ++ expected ++ ", got " ++ got)
  | .unknownExtension code => some ("Unknown msgpack extension code: " ++ toString code)
  | .message f path => some (f.text ++ path)
  | .foreign kind text => some (foreignText kind text)
  | .engine cause _ | .transport cause _ => cause.text?

def ownNames : List String :=
  ["BallistaError", "ConfigurationError", "FeatureNotImplementedError", "EngineError",
    "TransportError", "SchemaError"]

/-- Failures of this library pass through a dispatcher unchanged; others are wrapped by it. -/
def isOwn : Fault → Bool
  | .schema _ | .configuration _ | .notImplemented .. | .engine .. | .transport .. => true
  | .foreign kind _ => ownNames.contains kind
  | _ => false

def fromEngine (f : Fault) : Fault := if f.isOwn then f else .engine f true

def fromTransport (f : Fault) : Fault := if f.isOwn then f else .transport f true

end Fault

abbrev Outcome (α : Type) : Type := Except Fault α

def fail {α : Type} (kind : Lapse) : Outcome α := .error (.lapse kind)

end LazyQuery
