import LazyQuery.Frame
import LazyQuery.Proofs.Context.Answer
import LazyQuery.Proofs.Engine.Arrival

/-! Whether an executor answers as this process does. It runs the plan that arrives, so
that literals decide: those that still mean the same do no harm, and one that means nothing
fails the request. -/
namespace LazyQuery
open Engine Wire

section answers
variable {files : Files} {p q : Plan} {size : Int}

theorem header_of_execute {r : Relation} {s : Schema} {bs : List Batch}
    (h : execute files r s size = .ok bs) : ∃ header, r.header files = .ok header := by
  obtain ⟨_, hc, -⟩ := Outcome.bind_eq_ok.mp h
  obtain ⟨header, hh, -⟩ := Outcome.bind_eq_ok.mp hc
  exact ⟨header, hh⟩

theorem answer_delivered (hw : p.WellFormed) (hd : p.delivered? = some q)
    (hs : ∀ l ∈ p.literals, Survives l) {bs : List Batch} (h : answer files p size = .ok bs) :
    answer files q size = .ok bs := by
  obtain ⟨⟨r, layout⟩, hr, h⟩ := Outcome.bind_eq_ok.mp h
  obtain ⟨s, hschema, h⟩ := Outcome.bind_eq_ok.mp h
  obtain ⟨header, hh⟩ := header_of_execute h
  -- the rows were found, so that every literal means something and what arrives of it the same
  have he : ∀ l ∈ p.literals, Endures l :=
    fun l hl => ⟨hs l hl, meaning_of_header hr hh l hl⟩
  obtain ⟨⟨r', _⟩, hr', hsr, rfl⟩ := relationOf_delivered hw hd he (r, layout) hr
  obtain ⟨result, hc, h⟩ := Outcome.bind_eq_ok.mp h
  obtain ⟨_, hc', rfl⟩ := hsr.collect result hc
  rw [answer, hr', Outcome.ok_bind]
  dsimp only
  rw [schema_delivered hd, hschema, Outcome.ok_bind, execute, hc']
  exact h

theorem answer_stranded (hd : p.delivered? = some q) {l : Datum × DataType} (hl : l ∈ p.literals)
    (hs : Stranded l) : ∃ e, answer files q size = .error e := by
  cases h : answer files q size with
  | error e => exact ⟨e, rfl⟩
  | ok bs =>
    obtain ⟨⟨r, layout⟩, hr, h⟩ := Outcome.bind_eq_ok.mp h
    obtain ⟨s, -, h⟩ := Outcome.bind_eq_ok.mp h
    obtain ⟨header, hh⟩ := header_of_execute h
    obtain ⟨⟨w, _⟩, hm, hw, rfl⟩ :=
      Outcome.exists_of_forall₂ (planLiterals_delivered hd) hl
    have hsome := meaning_of_header hr hh _ hm
    rw [hs w hw] at hsome
    cases hsome

theorem delivered?_of_arrival (h : arrival p = .ok q) : p.delivered? = some q := by
  obtain ⟨ts, hts, h⟩ := Outcome.bind_eq_ok.mp h
  obtain ⟨i, hi, he⟩ := Outcome.bind_eq_ok.mp hts
  split at he
  · rename_i hf
    cases he
    rw [← toOption_decodeRequest hi hf, h]
    rfl
  · cases he

end answers

/-- If a plan has rows in this process, an executor that opens the same files answers with what the
plan that arrives there has. It answers with the same rows where the plan arrives and every literal
survives, and fails where one is stranded. -/
theorem Frame.collect_remote {c : Context} {f : Frame} (hf : Built c f) {files : Files}
    {t : Transport} (ht : t.Serves files) {scheme : String} {far : Context}
    (hfar : Context.Asks (.connecting scheme t) far) {bs : List Batch}
    (hl : ((Context.here [] .standard).collect files f.plan).outcome = .ok bs) :
    (∀ bs', (far.collect files f.plan).outcome = .ok bs' ↔
      ∃ q, arrival f.plan = .ok q ∧
        ((Context.here [] .standard).collect files q).outcome = .ok bs') ∧
    ((∃ q, arrival f.plan = .ok q) → (∀ l ∈ f.plan.literals, Survives l) →
      (far.collect files f.plan).outcome = .ok bs) ∧
    ((∃ l ∈ f.plan.literals, Stranded l) →
      ∃ e, (far.collect files f.plan).outcome = .error e) := by
  have hiff : ∀ bs', (far.collect files f.plan).outcome = .ok bs' ↔
      ∃ q, arrival f.plan = .ok q ∧
      ((Context.here [] .standard).collect files q).outcome = .ok bs' := by
    intro bs'
    rw [show (far.collect files f.plan).outcome = _ from Context.outcome_collect_remote ht hfar
      f.plan, Outcome.mapError_eq_ok, Outcome.bind_eq_ok]
    rfl
  obtain ⟨size, hsize, ha⟩ := Context.answer_of_here hl
  refine ⟨hiff, ?_, ?_⟩
  · rintro ⟨q, hq⟩ hs
    refine (hiff bs).mpr ⟨q, hq, Context.here_of_answer hsize ?_⟩
    exact answer_delivered (Frame.wellFormed_of_built hf) (delivered?_of_arrival hq) hs ha
  · rintro ⟨l, hm, hs⟩
    cases hc : (far.collect files f.plan).outcome with
    | error e => exact ⟨e, rfl⟩
    | ok bs' =>
      obtain ⟨q, hq, hc'⟩ := (hiff bs').mp hc
      obtain ⟨size', -, ha'⟩ := Context.answer_of_here hc'
      have hfail : ∃ e, answer files q size' = .error e :=
        answer_stranded (delivered?_of_arrival hq) hm hs
      rw [ha'] at hfail
      obtain ⟨e, he⟩ := hfail
      cases he

def Transport.direct (files : Files) : Transport where
  connect _ := .done ()
  fetch message := .done (Context.serve files none message)
  close := .done ()

theorem Transport.serves_direct (files : Files) : (direct files).Serves files where
  connects _ := rfl
  answers message := by
    rw [exchange, Traced.outcome_bind]
    rfl
  closes := rfl

def minuteFrame : Frame where
  plan := .projection [.column 0, .literal (.span 60000000) (.leaf (.duration .micro))]
    (.memory [⟨[⟨"n", .int64, true⟩], 2, [[.int 1, .int 2]], rfl, by decide⟩]
      [⟨"n", .int64, true⟩])
    [⟨"n", .int64, true⟩, ⟨"0:01:00", .leaf (.duration .micro), true⟩]
  context := .here [] .standard

theorem built_minuteFrame : Frame.Built (.here [] .standard) minuteFrame :=
  ⟨.batches [⟨[⟨"n", .int64, true⟩], 2, [[.int 1, .int 2]], rfl, by decide⟩],
    [.project [.wildcard, .literal (.span 60000000) (.leaf (.duration .micro))]], rfl⟩

/-- A minute for each row can be had in this process, and not from an executor. -/
theorem Frame.collect_remote_minute :
    Built (.here [] .standard) minuteFrame ∧
      (∃ bs, ((Context.here [] .standard).collect [] minuteFrame.plan).outcome = .ok bs ∧
        Batch.totalRows bs = 2) ∧
      ∃ e, ((Context.remote (.text "localhost") 50051 []
        (.connecting "grpc" (.direct []))).collect [] minuteFrame.plan).outcome = .error e := by
  have hl : ((Context.here [] .standard).collect [] minuteFrame.plan).outcome =
      .ok [⟨_, 2, [[.int 1, .int 2], [.int 60000000, .int 60000000]], rfl, by decide⟩] := rfl
  have hs : Stranded (.span 60000000, .leaf (.duration .micro)) := stranded_worded rfl rfl rfl
  obtain ⟨-, -, h⟩ := collect_remote built_minuteFrame (Transport.serves_direct [])
    (.remote (.text "localhost") 50051 []) hl
  exact ⟨built_minuteFrame, ⟨_, hl, rfl⟩, h ⟨_, List.mem_singleton.mpr rfl, hs⟩⟩

end LazyQuery
