import LazyQuery.Context
import LazyQuery.Proofs.Outcome

/-! What contexts answer, apart from what can be watched of them on the way. -/
namespace LazyQuery

namespace Traced
variable {α β : Type}

theorem outcome_bind (t : Traced α) (f : α → Traced β) :
    (t >>= f).outcome = (t.outcome >>= fun a => (f a).outcome) := by
  cases h : t.outcome with
  | error e => exact (events_bind_error h f).2
  | ok a => exact (events_bind_ok h f).2

theorem outcome_silent (x : Outcome α) : (silent x).outcome = x := rfl

theorem outcome_emit (e : Event) : (emit e).outcome = .ok () := rfl

theorem outcome_done (a : α) : (done a).outcome = .ok a := rfl

theorem outcome_mapFault (f : Fault → Fault) (t : Traced α) :
    (t.mapFault f).outcome = t.outcome.mapError f := rfl

theorem outcome_ending {t : Traced α} {last : Traced Unit} (h : last.outcome = .ok ()) :
    (t.ending last).outcome = t.outcome := by
  rw [ending, h]

end Traced

def Engine.answer (files : Files) (p : Plan) (size : Int) : Outcome (List Batch) := do
  let (r, _) ← relationOf p
  let s ← p.schema
  execute files r s size

open Engine in
/-- The types of a relation are found again when it is executed, with the same result. -/
theorem Engine.header_execute (files : Files) (r : Relation) (s : Schema) (size : Int) :
    (r.header files >>= fun _ => execute files r s size) = execute files r s size := by
  cases h : r.header files with
  | ok _ => rfl
  | error e =>
    rw [execute, Relation.collect, h]
    rfl

theorem QueryEngine.outcome_run_standard (files : Files) (p : Plan) (size : Nat) :
    ((standard files).run p size).outcome = Engine.answer files p size := by
  simp only [run, standard, Traced.outcome_bind, Traced.outcome_emit, Traced.outcome_silent,
    Outcome.ok_bind, Engine.prepare, Engine.answer, bind_assoc]
  congr 1
  funext ⟨r, layout⟩
  congr 1
  funext s
  simp only [optimizeStandard, compileStandard, executeStandard, Traced.outcome_bind,
    Traced.outcome_emit, Traced.outcome_silent, Traced.outcome_done, Outcome.ok_bind, bind_assoc]
  exact Engine.header_execute files r s size

namespace Context

theorem outcome_collectHere (files : Files) (settings : Assignments) (p : Plan) :
    (collectHere files settings .standard p).outcome =
      (Settings.batchSize ⟨settings, standardCatalog⟩ >>= fun size =>
        (Engine.answer files p size).mapError Fault.fromEngine) := by
  simp only [collectHere, chosen, Traced.outcome_bind, Traced.outcome_emit, Traced.outcome_silent,
    Traced.outcome_mapFault, Outcome.ok_bind, QueryEngine.outcome_run_standard]

section here
variable {files : Files} {p : Plan} {settings : Assignments}

theorem answer_of_here {bs : List Batch}
    (h : ((Context.here settings .standard).collect files p).outcome = .ok bs) :
    ∃ size : Nat, Settings.batchSize ⟨settings, standardCatalog⟩ = .ok size ∧
      Engine.answer files p size = .ok bs := by
  rw [show ((Context.here settings .standard).collect files p).outcome = _ from
    Context.outcome_collectHere files settings p] at h
  obtain ⟨size, hsize, h⟩ := Outcome.bind_eq_ok.mp h
  exact ⟨size, hsize, Outcome.mapError_eq_ok.mp h⟩

theorem here_of_answer {size : Nat} {bs : List Batch}
    (hsize : Settings.batchSize ⟨settings, standardCatalog⟩ = .ok size)
    (h : Engine.answer files p size = .ok bs) :
    ((Context.here settings .standard).collect files p).outcome = .ok bs := by
  rw [show ((Context.here settings .standard).collect files p).outcome = _ from
    Context.outcome_collectHere files settings p, hsize, Outcome.ok_bind]
  exact Outcome.mapError_eq_ok.mpr h

end here

/-- The contexts whose plans are sent through the client. -/
inductive Asks (client : Client) : Context → Prop
  | remote (host : Datum) (port : Nat) (settings : Assignments) :
    Asks client (.remote host port settings client)
  | cluster {settings : Assignments} {place : Datum × Nat} (master : String) :
    address settings = .ok place → Asks client (.cluster master settings client)

theorem outcome_collect_asks {client : Client} {c : Context} (h : Asks client c) (files : Files)
    (p : Plan) : ∃ host port, (collect files c p).outcome =
      (client.request host port p).outcome.mapError Fault.fromTransport := by
  cases h with
  | remote host port settings =>
    refine ⟨host, port, ?_⟩
    simp only [collect, collectAsync, dispatch, Traced.outcome_bind, Traced.outcome_emit,
      Outcome.ok_bind, Traced.outcome_mapFault]
  | @cluster settings place master ha =>
    refine ⟨place.1, place.2, ?_⟩
    simp only [collect, collectAsync, dispatch, Traced.outcome_bind, Traced.outcome_emit,
      Traced.outcome_silent, ha, Outcome.ok_bind, Traced.outcome_mapFault]

end Context

/-- Every connection can be opened and closed, and what is answered to a message is what an executor
over the files does with it. -/
structure Transport.Serves (t : Transport) (files : Files) : Prop where
  connects : ∀ place, (t.connect place).outcome = .ok ()
  answers : ∀ message, (t.exchange message).outcome = (Context.serve files none message).outcome
  closes : t.close.outcome = .ok ()

theorem Client.outcome_request_connecting {t : Transport} {files : Files} (h : t.Serves files)
    (scheme : String) (host : Datum) (port : Nat) (p : Plan) :
    ((connecting scheme t).request host port p).outcome =
      (Wire.encodeRequest p >>= fun m => (Context.serve files none m).outcome) := by
  simp only [connecting, Traced.outcome_bind, Traced.outcome_silent, Traced.outcome_emit,
    Outcome.ok_bind, h.connects, Traced.outcome_ending h.closes, h.answers]

/-- The plan that a message written for a plan is read as. -/
def Wire.arrival (p : Plan) : Outcome Plan := encodeRequest p >>= decodeRequest

namespace Context

theorem outcome_collect_remote {t : Transport} {files : Files} (ht : t.Serves files)
    {scheme : String} {c : Context} (hc : Asks (.connecting scheme t) c) (p : Plan) :
    (collect files c p).outcome =
      (Wire.arrival p >>= fun q => (collectHere files [] .standard q).outcome).mapError
        Fault.fromTransport := by
  obtain ⟨host, port, h⟩ := outcome_collect_asks hc files p
  rw [h, Client.outcome_request_connecting ht, Wire.arrival, bind_assoc]
  simp only [serve, Traced.outcome_bind, Traced.outcome_silent, Traced.outcome_emit,
    Outcome.ok_bind]

end Context
end LazyQuery
