import LazyQuery.Trace
import LazyQuery.Wire.Reading

/-! Clients: how the rows of a plan are asked for at another place. The standard client opens a
connection, sends one request and always closes the connection again. -/
namespace LazyQuery

/-- Asks for the rows of a plan at a host and port. -/
structure Client where
  request : Datum → Nat → Plan → Traced (List Batch)

/-- A connection to one place: how it is opened, how it answers a message, and how it is closed. An
answer is something that is still to be read. -/
structure Transport where
  connect : String → Traced Unit
  fetch : List Wire.Token → Traced (Traced (List Batch))
  close : Traced Unit

def Transport.exchange (t : Transport) (message : List Wire.Token) : Traced (List Batch) := do
  let answer ← t.fetch message
  answer

namespace Client

def location (scheme : String) (host : Datum) (port : Nat) : String :=
  scheme ++ "://" ++ host.plain ++ ":" ++ toString port

def text (scheme : String) : String := "FlightClient(scheme=" ++ Text.quoted scheme ++ ")"

/-- The scheme that is used where no other is given. -/
def standardScheme : String := "grpc"

/-- Connects, asks once, and closes. Nothing is sent if the plan has no message. -/
def connecting (scheme : String) (t : Transport) : Client where
  request host port p := do
    let message ← Traced.silent (Wire.encodeRequest p)
    let place := location scheme host port
    Traced.emit (.record "ballista.client" .debug ("Sending Collect to " ++ place))
    t.connect place
    (t.exchange message).ending t.close

end Client
end LazyQuery
