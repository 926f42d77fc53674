import LazyQuery.Proofs.Context.Numbers

/-! Which calls a run makes of its collaborators. Collaborators may show anything while they answer,
even what looks like a call; so a call is kept together with its answer, and what can be watched of
a run is put together from such exchanges. -/
namespace LazyQuery

/-- A call of a collaborator: of one stage of an engine, or a request to a client. -/
inductive Invocation
  | prepare (plan : Plan)
  | optimize (input : Artifact)
  | compile (input : Artifact) (batchSize : Nat)
  | execute (input : Artifact)
  | request (host : Datum) (port : Nat) (plan : Plan)

/-- What is called, whatever it is given. -/
inductive Stage
  | prepare | optimize | compile | execute | request
deriving DecidableEq, Repr

/-- What a call returns. -/
inductive Reply
  | artifact (a : Artifact)
  | batches (bs : List Batch)

abbrev Collaborator := Invocation → Traced Reply

/-- A call and what the collaborator did on it. -/
structure Exchange where
  call : Invocation
  answer : Traced Reply

/-- The order of the stages of an engine. -/
def Stage.ofEngine : List Stage := [.prepare, .optimize, .compile, .execute]

def Stage.onward : Stage → List Stage
  | .request => [.request]
  | s => Stage.ofEngine.drop (Stage.ofEngine.idxOf s)

namespace Invocation

def stage : Invocation → Stage
  | .prepare _ => .prepare
  | .optimize _ => .optimize
  | .compile .. => .compile
  | .execute _ => .execute
  | .request .. => .request

def event : Invocation → Event
  | .prepare p => .prepare p
  | .optimize a => .optimize a
  | .compile a n => .compile a n
  | .execute a => .execute a
  | .request host port p => .request host port p

def next? (size : Nat) : Invocation → Reply → Option Invocation
  | .prepare _, .artifact a => some (.optimize a)
  | .optimize _, .artifact a => some (.compile a size)
  | .compile .., .artifact a => some (.execute a)
  | _, _ => none

theorem onward_of_next? {size : Nat} {c d : Invocation} {r : Reply} (h : c.next? size r = some d) :
    c.stage.onward = c.stage :: d.stage.onward := by
  unfold next? at h
  split at h <;> cases h <;> rfl

theorem stage_prefix_onward (c : Invocation) : [c.stage] <+: c.stage.onward := by
  cases c <;> exact ⟨_, rfl⟩

end Invocation

/-- A call is seen first, then what its answer shows. -/
def Exchange.events (x : Exchange) : List Event := x.call.event :: x.answer.events

def Event.IsRecord : Event → Prop
  | .record .. => True
  | _ => False

def Traced.replying {α : Type} (f : α → Reply) (t : Traced α) : Traced Reply :=
  ⟨t.events, t.outcome.map f⟩

/-- A stage that an engine does not have fails. -/
def QueryEngine.answers (e : QueryEngine) : Collaborator
  | .prepare p => (e.prepare p).replying .artifact
  | .optimize a => (e.optimize a).replying .artifact
  | .compile a n => (e.compile a n).replying .artifact
  | .execute a => (e.execute a).replying .batches
  | .request .. => .silent (fail .missingMember)

def Client.answers (c : Client) : Collaborator
  | .request host port p => (c.request host port p).replying .batches
  | _ => .silent (fail .missingMember)

/-- All exchanges from one call on: each call is given just what the one before it returned, and a
call is the last if it fails or nothing is called with its reply. -/
inductive Exchanges (k : Collaborator) (size : Nat) : Invocation → List Exchange → Prop
  | last {c : Invocation} (h : ∀ r, (k c).outcome = .ok r → c.next? size r = none) :
    Exchanges k size c [⟨c, k c⟩]
  | more {c d : Invocation} {r : Reply} {xs : List Exchange} (h : (k c).outcome = .ok r)
    (hn : c.next? size r = some d) (hx : Exchanges k size d xs) :
    Exchanges k size c (⟨c, k c⟩ :: xs)

section exchanges
variable {k : Collaborator} {size : Nat} {c : Invocation} {xs ys : List Exchange}

/-- A collaborator and a first call leave nothing open. -/
theorem Exchanges.unique (hx : Exchanges k size c xs) (hy : Exchanges k size c ys) : xs = ys := by
  induction hx generalizing ys with
  | last h =>
    cases hy with
    | last => rfl
    | more h' hn => cases (h _ h').symm.trans hn
  | more h hn _ ih =>
    cases hy with
    | last h' => cases (h' _ h).symm.trans hn
    | more h' hn' hy =>
      cases h.symm.trans h'
      cases hn.symm.trans hn'
      rw [ih hy]

/-- No stage is left out, called twice, or called before one that it depends on. -/
theorem Exchanges.stages_prefix (hx : Exchanges k size c xs) :
    xs.map (·.call.stage) <+: c.stage.onward := by
  induction hx with
  | @last c h => exact c.stage_prefix_onward
  | more h hn _ ih =>
    rw [Invocation.onward_of_next? hn]
    exact List.prefix_cons_inj _ |>.mpr ih

/-- A run makes the exchanges that follow from a call, shows them, and ends as the last of them. -/
def Traced.Makes (k : Collaborator) (size : Nat) (c : Invocation)
    (t : Traced (List Batch)) : Prop :=
  ∃ xs x, Exchanges k size c xs ∧ xs.getLast? = some x ∧
  t.events = xs.flatMap Exchange.events ∧
    t.outcome.map .batches = x.answer.outcome

theorem makes_last {t : Traced (List Batch)} (hk : k c = t.replying .batches) :
    (do Traced.emit c.event; t).Makes k size c := by
  refine ⟨[⟨c, k c⟩], ⟨c, k c⟩, .last ?_, rfl, ?_, ?_⟩
  · intro r hr
    rw [hk] at hr
    cases ht : t.outcome with
    | error e =>
      simp only [Traced.replying, ht] at hr
      cases hr
    | ok bs =>
      simp only [Traced.replying, ht] at hr
      cases hr
      cases c <;> rfl
  · simp [Exchange.events, hk, Traced.replying, Traced.emit, bind, Traced.andThen]
  · rw [Traced.outcome_bind, hk]
    rfl

/-- What follows an exchange is made after it, unless it failed. -/
theorem makes_stage {t : Traced Artifact} {d : Artifact → Invocation}
    {f : Artifact → Traced (List Batch)}
    (hk : k c = t.replying .artifact) (hn : ∀ a, c.next? size (.artifact a) = some (d a))
    (hf : ∀ a, (f a).Makes k size (d a)) :
    (do Traced.emit c.event; let a ← t; f a).Makes k size c := by
  cases ht : t.outcome with
  | error e =>
    refine ⟨[⟨c, k c⟩], ⟨c, k c⟩, .last ?_, rfl, ?_, ?_⟩
    · intro r hr
      simp only [hk, Traced.replying, ht] at hr
      cases hr
    · simp [Exchange.events, hk, Traced.replying, Traced.emit, bind, Traced.andThen, ht]
    · rw [Traced.outcome_bind, Traced.outcome_emit, Outcome.ok_bind, Traced.outcome_bind, ht, hk,
        Traced.replying, ht]
      rfl
  | ok a =>
    obtain ⟨xs, x, hx, hlast, hevents, hout⟩ := hf a
    have hc : (k c).outcome = .ok (.artifact a) := by
      rw [hk, Traced.replying, ht]
      rfl
    refine ⟨⟨c, k c⟩ :: xs, x, .more hc (hn a) hx, ?_, ?_, ?_⟩
    · rw [List.getLast?_cons, hlast]
      rfl
    · simp [Exchange.events, hk, Traced.replying, Traced.emit, bind, Traced.andThen, ht, hevents]
    · rw [Traced.outcome_bind, Traced.outcome_emit, Outcome.ok_bind, Traced.outcome_bind, ht]
      exact hout

theorem QueryEngine.run_makes (e : QueryEngine) (p : Plan) (size : Nat) :
    (e.run p size).Makes e.answers size (.prepare p) := by
  refine makes_stage rfl (fun _ => rfl) fun native => ?_
  refine makes_stage rfl (fun _ => rfl) fun better => ?_
  refine makes_stage rfl (fun _ => rfl) fun program => ?_
  exact makes_last rfl

end exchanges

namespace Context
variable {files : Files} {p : Plan}

/-- What the settings of a cluster come to as its place: both of host and port are given, and the
text of the port writes a number up to 65535. -/
inductive Names (settings : Assignments) : Outcome (Datum × Nat) → Prop
  | missing : settings.get? hostKey = none ∨ settings.get? portKey = none →
      Names settings (.error (.configuration (.missingSettings
        ([hostKey, portKey].filter fun key => (settings.get? key).isNone))))
  | overlong {host port : Datum} : settings.get? hostKey = some host →
      settings.get? portKey = some port → Text.Overlong port.plain →
      Names settings (.error (.lapse .badValue))
  | invalid {host port : Datum} : settings.get? hostKey = some host →
      settings.get? portKey = some port → ¬ Text.Overlong port.plain →
      (∀ n, Text.Writes port.plain.toList n → 65535 < n) →
      Names settings (.error (.configuration (.badPort portKey port)))
  | place {host port : Datum} {n : Nat} : settings.get? hostKey = some host →
      settings.get? portKey = some port → ¬ Text.Overlong port.plain →
      Text.Writes port.plain.toList n → n ≤ 65535 → Names settings (.ok (host, n))

section names
variable {settings : Assignments}

theorem address_of_names {o : Outcome (Datum × Nat)} (h : Names settings o) :
    address settings = o := by
  cases h with
  | missing h =>
    rw [address]
    cases hh : settings.get? hostKey with
    | none => cases hp : settings.get? portKey <;> simp [hh, hp]
    | some host =>
      have hp : settings.get? portKey = none := h.resolve_left (by simp [hh])
      simp [hh, hp]
  | overlong hh hp hl =>
    simp only [address, hh, hp, readPort_of_overlong rfl hl, Outcome.error_bind]
  | invalid hh hp hl hn =>
    simp only [address, hh, hp, readPort_eq_error rfl hl hn, Outcome.error_bind]
  | place hh hp hl hw hle =>
    simp only [address, hh, hp, (readPort_eq_ok_iff rfl hl).mpr ⟨hw, hle⟩, Outcome.ok_bind]

theorem names_address (settings : Assignments) : Names settings (address settings) := by
  obtain ⟨o, ho⟩ : ∃ o, Names settings o := by
    cases hh : settings.get? hostKey with
    | none => exact ⟨_, .missing (.inl hh)⟩
    | some host =>
      cases hp : settings.get? portKey with
      | none => exact ⟨_, .missing (.inr hp)⟩
      | some port =>
        by_cases hl : Text.Overlong port.plain
        · exact ⟨_, .overlong hh hp hl⟩
        · by_cases hn : ∃ n ≤ 65535, Text.Writes port.plain.toList n
          · obtain ⟨n, hle, hw⟩ := hn
            exact ⟨_, .place hh hp hl hw hle⟩
          · refine ⟨_, .invalid hh hp hl fun n hw => ?_⟩
            by_contra hle
            exact hn ⟨n, Nat.not_lt.mp hle, hw⟩
  rwa [address_of_names ho]

theorem Names.unique {o o' : Outcome (Datum × Nat)} (h : Names settings o)
    (h' : Names settings o') :
    o = o' :=
  (address_of_names h).symm.trans (address_of_names h')

end names

/-- The engine that is had where one is asked for. -/
inductive Supplies (files : Files) : EngineChoice → QueryEngine → Prop
  | standard : Supplies files .standard (.standard files)
  | custom (e : QueryEngine) : Supplies files (.custom e) e

theorem Supplies.unique {choice : EngineChoice} {e e' : QueryEngine} (h : Supplies files choice e)
    (h' : Supplies files choice e') : e = e' := by
  cases h <;> cases h' <;> rfl

/-- The exchanges that come of asking a context for the rows of a plan, and the outcome. No
collaborator is called before the settings have been read. -/
inductive Consults (files : Files) (p : Plan) : Context → List Exchange →
    Outcome (List Batch) → Prop
  | unsized {settings : Assignments} {choice : EngineChoice} {f : Fault} :
    Settings.batchSize ⟨settings, standardCatalog⟩ = .error f →
      Consults files p (.here settings choice) [] (.error f)
  | unequipped {settings : Assignments} {size : Nat} :
    Settings.batchSize ⟨settings, standardCatalog⟩ = .ok size →
      Consults files p (.here settings .missing) [] (.error (.configuration .noEngine))
  | engine {settings : Assignments} {choice : EngineChoice} {size : Nat} {e : QueryEngine}
    {xs : List Exchange} {x : Exchange} {o : Outcome (List Batch)} :
    Settings.batchSize ⟨settings, standardCatalog⟩ = .ok size →
    Supplies files choice e →
      Exchanges e.answers size (.prepare p) xs → xs.getLast? = some x →
      o.map Reply.batches = x.answer.outcome.mapError Fault.fromEngine →
      Consults files p (.here settings choice) xs o
  | client (host : Datum) (port : Nat) (settings : Assignments) (client : Client)
    {o : Outcome (List Batch)} :
    o.map Reply.batches =
        (client.answers (.request host port p)).outcome.mapError Fault.fromTransport →
      Consults files p (.remote host port settings client)
        [⟨.request host port p, client.answers (.request host port p)⟩] o
  | unaddressed (master : String) {settings : Assignments} (client : Client) {f : Fault} :
    Names settings (.error f) → Consults files p (.cluster master settings client) [] (.error f)
  | addressed (master : String) {settings : Assignments} (client : Client) {host : Datum}
      {port : Nat}
    {o : Outcome (List Batch)} :
    Names settings (.ok (host, port)) →
      o.map Reply.batches =
        (client.answers (.request host port p)).outcome.mapError Fault.fromTransport →
      Consults files p (.cluster master settings client)
        [⟨.request host port p, client.answers (.request host port p)⟩] o
  | nowhere (value : Datum) : Consults files p (.nowhere value) []
      (.error (.unknownState value.kind))

theorem collectAsync_eq_collect (files : Files) (c : Context) (p : Plan) :
    collectAsync files c p = collect files c p := by
  cases c <;> rfl

theorem Consults.stages {c : Context} {xs : List Exchange} {o : Outcome (List Batch)}
    (h : Consults files p c xs o) :
    xs.map (·.call.stage) <+: Stage.ofEngine ∨ xs.map (·.call.stage) = [.request] := by
  cases h with
  | unsized _ => exact .inl List.nil_prefix
  | unequipped _ => exact .inl List.nil_prefix
  | engine _ _ hx _ _ => exact .inl hx.stages_prefix
  | client _ _ _ _ _ => exact .inr rfl
  | unaddressed _ _ _ => exact .inl List.nil_prefix
  | addressed _ _ _ _ => exact .inr rfl
  | nowhere _ => exact .inl List.nil_prefix

theorem map_mapError (o : Outcome (List Batch)) (f : Fault → Fault) :
    (o.mapError f).map Reply.batches = (o.map Reply.batches).mapError f := by
  cases o <;> rfl

theorem map_batches_injective {o o' : Outcome (List Batch)}
    (h : o.map Reply.batches = o'.map Reply.batches) : o = o' := by
  cases o with
  | error f =>
    cases o' with
    | error f' => exact congrArg Except.error (Except.error.inj h)
    | ok bs' => cases h
  | ok bs =>
    cases o' with
    | error f' => cases h
    | ok bs' =>
      obtain ⟨rfl⟩ := Reply.batches.inj (Except.ok.inj h)
      rfl

/-- How the collaborators behave decides the exchanges and the outcome. -/
theorem Consults.unique {c : Context} {xs ys : List Exchange} {o o' : Outcome (List Batch)}
    (hx : Consults files p c xs o) (hy : Consults files p c ys o') : ys = xs ∧ o' = o := by
  cases hx with
  | unsized hs =>
    cases hy with
    | unsized hs' => cases hs.symm.trans hs'; exact ⟨rfl, rfl⟩
    | unequipped hs' => cases hs.symm.trans hs'
    | engine hs' _ _ _ _ => cases hs.symm.trans hs'
  | unequipped hs =>
    cases hy with
    | unsized hs' => cases hs.symm.trans hs'
    | unequipped _ => exact ⟨rfl, rfl⟩
    | engine _ he' _ _ _ => cases he'
  | engine hs he hx hlast ho =>
    cases hy with
    | unsized hs' => cases hs.symm.trans hs'
    | unequipped _ => cases he
    | engine hs' he' hy hlast' ho' =>
      cases hs.symm.trans hs'
      obtain rfl := he.unique he'
      obtain rfl := hx.unique hy
      cases hlast.symm.trans hlast'
      exact ⟨rfl, map_batches_injective (ho'.trans ho.symm)⟩
  | client _ _ _ _ ho =>
    cases hy with
    | client _ _ _ _ ho' => exact ⟨rfl, map_batches_injective (ho'.trans ho.symm)⟩
  | unaddressed _ _ ha =>
    cases hy with
    | unaddressed _ _ ha' => cases ha.unique ha'; exact ⟨rfl, rfl⟩
    | addressed _ _ ha' _ => cases ha.unique ha'
  | addressed _ _ ha ho =>
    cases hy with
    | unaddressed _ _ ha' => cases ha.unique ha'
    | addressed _ _ ha' ho' =>
      cases ha.unique ha'
      exact ⟨rfl, map_batches_injective (ho'.trans ho.symm)⟩
  | nowhere _ =>
    cases hy with
    | nowhere _ => exact ⟨rfl, rfl⟩

/-- A run of a plan at a context shows records of its own and then its exchanges. -/
def Consulting (files : Files) (p : Plan) (c : Context) (t : Traced (List Batch)) : Prop :=
  ∃ notes xs, (∀ n ∈ notes, Event.IsRecord n) ∧
    t.events = notes ++ xs.flatMap Exchange.events ∧
    Consults files p c xs t.outcome

theorem collectHere_consulting (files : Files) (settings : Assignments) (choice : EngineChoice)
    (p : Plan) :
    Consulting files p (.here settings choice) (collectHere files settings choice p) := by
  cases hs : Settings.batchSize ⟨settings, standardCatalog⟩ with
  | error f =>
    obtain ⟨hevents, hout⟩ := Traced.events_bind_error (t := .silent (.error f)) rfl _
    refine ⟨[], [], nofun, ?_, ?_⟩
    · simp only [collectHere, hs]
      exact hevents
    · simp only [collectHere, hs, hout]
      exact .unsized hs
  | ok size =>
    have hengine {e : QueryEngine} (he : Supplies files choice e)
        (hc : chosen files choice = .ok e) :
        Consulting files p (.here settings choice) (collectHere files settings choice p) := by
      obtain ⟨xs, x, hx, hlast, hevents, hout⟩ := e.run_makes p size
      refine ⟨[.record logger .debug ("batch_size=" ++ toString size),
        .record logger .info ("Executing plan locally with " ++ e.name)], xs,
        by simp [Event.IsRecord], ?_, ?_⟩
      · simp [collectHere, hs, hc, Traced.silent, Traced.emit, bind, Traced.andThen,
          Traced.mapFault, hevents]
      · simp only [collectHere, hs, hc, Traced.outcome_bind, Traced.outcome_silent,
          Traced.outcome_emit, Outcome.ok_bind, Traced.outcome_mapFault]
        exact .engine hs he hx hlast (by rw [map_mapError, hout])
    cases choice with
    | standard => exact hengine .standard rfl
    | custom e => exact hengine (.custom e) rfl
    | missing =>
      refine ⟨[.record logger .debug ("batch_size=" ++ toString size)], [],
        by simp [Event.IsRecord], ?_, ?_⟩
      · simp [collectHere, hs, chosen, Traced.silent, Traced.emit, bind, Traced.andThen]
      · simp only [collectHere, hs, chosen, Traced.outcome_bind, Traced.outcome_silent,
          Traced.outcome_emit, Outcome.ok_bind, Outcome.error_bind]
        exact .unequipped hs

theorem dispatch_shows (kind : String) (host : Datum) (port : Nat) (client : Client) (p : Plan) :
    (∃ note, Event.IsRecord note ∧ (dispatch kind host port client p).events = note ::
      Exchange.events ⟨.request host port p, client.answers (.request host port p)⟩) ∧
    (dispatch kind host port client p).outcome.map Reply.batches =
      (client.answers (.request host port p)).outcome.mapError Fault.fromTransport := by
  constructor
  · refine ⟨.record logger .info ("Dispatching Collect to " ++ kind ++ " executor at " ++
      host.plain ++ ":" ++ toString port), trivial, ?_⟩
    simp [dispatch, Traced.emit, bind, Traced.andThen, Traced.mapFault, Exchange.events,
      Invocation.event, Client.answers, Traced.replying]
  · simp only [dispatch, Traced.outcome_bind, Traced.outcome_emit, Outcome.ok_bind,
      Traced.outcome_mapFault]
    exact map_mapError _ _

theorem collect_consulting (files : Files) (c : Context) (p : Plan) :
    Consulting files p c (collect files c p) := by
  cases c with
  | here settings choice => exact collectHere_consulting files settings choice p
  | remote host port settings client =>
    obtain ⟨⟨note, hn, hevents⟩, hout⟩ := dispatch_shows "Remote" host port client p
    refine ⟨[note], [_], by simpa using hn, ?_, .client host port settings client hout⟩
    change (dispatch "Remote" host port client p).events = _
    rw [hevents, List.flatMap_singleton, List.singleton_append]
  | cluster master settings client =>
    have hnames := names_address settings
    cases ha : address settings with
    | error f =>
      rw [ha] at hnames
      refine ⟨[], [], nofun, ?_, ?_⟩
      · simp [collect, collectAsync, ha, Traced.silent, bind, Traced.andThen]
      · simp only [collect, collectAsync, ha, Traced.outcome_bind, Traced.outcome_silent,
          Outcome.error_bind]
        exact .unaddressed master client hnames
    | ok place =>
      obtain ⟨host, port⟩ := place
      rw [ha] at hnames
      obtain ⟨⟨note, hn, hevents⟩, hout⟩ := dispatch_shows "Spark" host port client p
      refine ⟨[.record logger .debug ("Spark master " ++ master ++ " resolved executor " ++
        host.plain ++ ":" ++ toString port), note], [_], by simpa [Event.IsRecord] using hn, ?_,
        .addressed master client hnames ?_⟩
      · simp [collect, collectAsync, ha, Traced.silent, Traced.emit, bind, Traced.andThen, hevents]
      · simp only [collect, collectAsync, ha, Traced.outcome_bind, Traced.outcome_silent,
          Traced.outcome_emit, Outcome.ok_bind]
        exact hout
  | nowhere value => exact ⟨[], [], nofun, rfl, .nowhere value⟩

/-- What a run calls. Apart from records, what can be watched of it are its exchanges: none
before the settings are read, then the stages of the engine in order up to the first that
fails, or one request. Its outcome is that of the last exchange, and from inside an event loop
the run is the same. -/
theorem collect_exchanges (files : Files) (c : Context) (p : Plan) :
    (∃ notes xs, (∀ n ∈ notes, Event.IsRecord n) ∧
      (collect files c p).events = notes ++ xs.flatMap Exchange.events ∧
      Consults files p c xs (collect files c p).outcome ∧
      (∀ ys o, Consults files p c ys o → ys = xs ∧ o = (collect files c p).outcome) ∧
      (xs.map (·.call.stage) <+: Stage.ofEngine ∨ xs.map (·.call.stage) = [.request])) ∧
    collectAsync files c p = collect files c p := by
  obtain ⟨notes, xs, hn, hevents, hc⟩ := collect_consulting files c p
  exact ⟨⟨notes, xs, hn, hevents, hc, fun _ _ hy => hc.unique hy, hc.stages⟩,
    collectAsync_eq_collect files c p⟩

end Context

end LazyQuery
