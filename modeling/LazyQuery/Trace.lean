import LazyQuery.Engine.Artifact

/-! Runs that can be watched: a computation that can fail, together with what could be observed of
it until it ended. Nothing that follows a failure is observed. -/
namespace LazyQuery

/-- How important a record is. -/
inductive Level
  | debug | info
deriving DecidableEq, Repr

/-- What a run shows of itself: records, calls to an engine, requests to a client, and steps of a
connection. -/
inductive Event
  | record (logger : String) (level : Level) (text : String)
  | prepare (plan : Plan)
  | optimize (input : Artifact)
  | compile (input : Artifact) (batchSize : Nat)
  | execute (input : Artifact)
  | request (host : Datum) (port : Nat) (plan : Plan)
  | connect (location : String)
  | fetch (plan : Plan)
  | close

structure Traced (α : Type) where
  events : List Event
  outcome : Outcome α

namespace Traced

def done {α : Type} (a : α) : Traced α := ⟨[], .ok a⟩

def andThen {α β : Type} (t : Traced α) (f : α → Traced β) : Traced β :=
  match t.outcome with
  | .ok a => ⟨t.events ++ (f a).events, (f a).outcome⟩
  | .error e => ⟨t.events, .error e⟩

instance : Monad Traced where
  pure := done
  bind := andThen

/-- A computation that shows nothing. -/
def silent {α : Type} (x : Outcome α) : Traced α := ⟨[], x⟩

def emit (e : Event) : Traced Unit := ⟨[e], .ok ()⟩

def mapFault {α : Type} (f : Fault → Fault) (t : Traced α) : Traced α :=
  ⟨t.events, t.outcome.mapError f⟩

/-- A last step that is taken whether or not the run failed. Its own failure takes the place of the
run's. -/
def ending {α : Type} (t : Traced α) (last : Traced Unit) : Traced α :=
  ⟨t.events ++ last.events, match last.outcome with
    | .ok () => t.outcome
    | .error e => .error e⟩

theorem events_bind_error {α β : Type} {t : Traced α} {e : Fault} (h : t.outcome = .error e)
    (f : α → Traced β) : (t >>= f).events = t.events ∧ (t >>= f).outcome = .error e := by
  simp [bind, andThen, h]

theorem events_bind_ok {α β : Type} {t : Traced α} {a : α} (h : t.outcome = .ok a)
    (f : α → Traced β) :
    (t >>= f).events = t.events ++ (f a).events ∧ (t >>= f).outcome = (f a).outcome := by
  simp [bind, andThen, h]

end Traced
end LazyQuery
