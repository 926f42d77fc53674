import LazyQuery.Proofs.Context.Dispatch

/-! What a client does with a connection. A transport may show anything and fail at any step; so a
step is kept together with what the transport did on it, and what can be watched of a request is put
together from its steps. A connection that was opened is closed once, after everything else. -/
namespace LazyQuery

namespace Traced
variable {α : Type} {t : Traced α} {last : Traced Unit}

def failure? (t : Traced α) : Option Fault :=
  match t.outcome with
  | .ok _ => none
  | .error e => some e

end Traced

namespace Transport

/-- A step of a connection and what the transport did on it. -/
inductive Step
  | connect (place : String) (did : Traced Unit)
  | fetch (message : List Wire.Token) (did : Traced (Traced (List Batch)))
  | read (did : Traced (List Batch))
  | close (did : Traced Unit)

namespace Step

def events : Step → List Event
  | connect _ did => did.events
  | fetch _ did => did.events
  | read did => did.events
  | close did => did.events

def failure? : Step → Option Fault
  | connect _ did => did.failure?
  | fetch _ did => did.failure?
  | read did => did.failure?
  | close did => did.failure?

def isClose : Step → Bool
  | close _ => true
  | _ => false

/-- What steps fail with: with the failure to close if there is one, else with the first failure. -/
def fault? (steps : List Step) : Option Fault :=
  ((steps.filter isClose).findSome? failure?).or (steps.findSome? failure?)

end Step

/-- The steps of a request with one message at one place. A connection that is not opened is not
used; an answer is read if there is one, and either way the connection is closed. -/
inductive Took (t : Transport) (place : String) (message : List Wire.Token) : List Step → Prop
  | refused {e : Fault} (hc : (t.connect place).outcome = .error e) :
    Took t place message [.connect place (t.connect place)]
  | unanswered {e : Fault} (hc : (t.connect place).outcome = .ok ())
    (hf : (t.fetch message).outcome = .error e) :
    Took t place message
      [.connect place (t.connect place), .fetch message (t.fetch message), .close t.close]
  | answered {answer : Traced (List Batch)} (hc : (t.connect place).outcome = .ok ())
    (hf : (t.fetch message).outcome = .ok answer) :
    Took t place message
      [.connect place (t.connect place), .fetch message (t.fetch message), .read answer,
        .close t.close]

section took
variable {t : Transport} {place : String} {message : List Wire.Token} {xs ys : List Step}

theorem Took.unique (hx : t.Took place message xs) (hy : t.Took place message ys) : ys = xs := by
  cases hx with
  | refused hc =>
    cases hy with
    | refused _ => rfl
    | unanswered hc' _ => cases hc.symm.trans hc'
    | answered hc' _ => cases hc.symm.trans hc'
  | unanswered hc hf =>
    cases hy with
    | refused hc' => cases hc.symm.trans hc'
    | unanswered _ _ => rfl
    | answered _ hf' => cases hf.symm.trans hf'
  | answered hc hf =>
    cases hy with
    | refused hc' => cases hc.symm.trans hc'
    | unanswered _ hf' => cases hf.symm.trans hf'
    | answered _ hf' => cases hf.symm.trans hf'; rfl

end took

section visit
variable {t : Transport} {place : String} {message : List Wire.Token} {xs : List Step}

end visit
end Transport

namespace Client
open Transport

end Client
end LazyQuery
