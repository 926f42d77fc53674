import LazyQuery.Frame
import LazyQuery.Proofs.Outcome

/-! Frames that are built from a source by any number of steps. Every node of their plans is well
formed: references are in range, operators are known, and the schema that a node keeps is the one
that its expressions have over its input. -/
namespace LazyQuery

mutual
/-- An expression over an input with `n` columns: references lie in range, every operator is known,
and neither a wildcard nor a node of no kind occurs at any depth. -/
def Expr.Sound (n : Nat) : Expr → Prop
  | .column i => 0 ≤ i ∧ i < n
  | .literal .. => True
  | .aggregate _ args _ => Expr.AllSound n args
  | .binary l op r => l.Sound n ∧ op ∈ Operator.all.map Operator.text ∧ r.Sound n
  | .not e | .isNull e | .isNotNull e | .cast e _ | .alias e _ => e.Sound n
  | .wildcard | .bare => False

def Expr.AllSound (n : Nat) : List Expr → Prop
  | [] => True
  | e :: es => e.Sound n ∧ Expr.AllSound n es
end

namespace Expr

theorem allSound_iff (n : Nat) (es : List Expr) : AllSound n es ↔ ∀ e ∈ es, e.Sound n := by
  induction es with
  | nil => simp [AllSound]
  | cons e es ih => simp [AllSound, ih]

def InRange (n : Nat) (is : List Int) : Prop := ∀ i ∈ is, Schema.inRange n i = true

theorem inRange_append {n : Nat} {is js : List Int} :
    InRange n (is ++ js) ↔ InRange n is ∧ InRange n js := by
  simp [InRange, or_imp, forall_and]

theorem known_of_binaryField {op : String} {l r f : Field} (h : binaryField op l r = .ok f) :
    op ∈ Operator.all.map Operator.text := by
  unfold binaryField at h
  cases ho : Operator.ofText? op with
  | none => simp [ho] at h
  | some o =>
    have ht := Operator.text_of_ofText? ho
    exact List.mem_map.mpr ⟨o, by cases o <;> simp [Operator.all], ht⟩

mutual
theorem sound_of_derive {s : Schema} {e : Expr} {f : Field} (h : derive s e = .ok f)
    (hi : InRange s.length e.columns) : e.Sound s.length := by
  cases e with
  | column i => simpa [Sound, InRange, columns, Schema.inRange] using hi
  | literal v t => trivial
  | wildcard => simp [derive] at h
  | bare => simp [derive] at h
  | aggregate name args t =>
    obtain ⟨fs, hfs, -⟩ := Outcome.bind_eq_ok.mp h
    exact allSound_of_deriveAll hfs hi
  | binary l op r =>
    obtain ⟨lf, hl, h⟩ := Outcome.bind_eq_ok.mp h
    obtain ⟨rf, hr, h⟩ := Outcome.bind_eq_ok.mp h
    rw [columns, inRange_append] at hi
    exact ⟨sound_of_derive hl hi.1, known_of_binaryField h, sound_of_derive hr hi.2⟩
  | not e | isNull e | isNotNull e | cast e _ | «alias» e _ =>
    obtain ⟨g, hg, -⟩ := Outcome.bind_eq_ok.mp h
    exact sound_of_derive (e := e) hg hi

theorem allSound_of_deriveAll {s : Schema} {es : List Expr} {fs : List Field}
    (h : deriveAll s es = .ok fs) (hi : InRange s.length (columnsOfAll es)) :
    AllSound s.length es := by
  cases es with
  | nil => trivial
  | cons e es =>
    obtain ⟨f, hf, h⟩ := Outcome.bind_eq_ok.mp h
    obtain ⟨gs, hgs, -⟩ := Outcome.bind_eq_ok.mp h
    rw [columnsOfAll, inRange_append] at hi
    exact ⟨sound_of_derive hf hi.1, allSound_of_deriveAll hgs hi.2⟩
end

theorem inRange_of_checkReferences {n : Nat} {es : List Expr} (h : checkReferences n es = .ok ()) :
    InRange n (columnsOfAll es) := by
  have hn : outOfRange n es = [] := by
    cases hl : outOfRange n es with
    | nil => rfl
    | cons => simp [checkReferences, hl] at h
  rw [columnsOfAll_eq_flatMap]
  intro i hi
  cases hr : Schema.inRange n i with
  | true => rfl
  | false =>
    have hm : i ∈ outOfRange n es :=
      List.mem_eraseDups.mpr (List.mem_filter.mpr ⟨hi, by simp [hr]⟩)
    rw [hn] at hm
    cases hm

theorem sound_of_fields {s t : Schema} {es : List Expr} (h : fields s es = .ok t) :
    ∀ e ∈ es, e.Sound s.length := by
  obtain ⟨u, hc, hd⟩ := Outcome.bind_eq_ok.mp h
  exact (allSound_iff _ _).mp (allSound_of_deriveAll hd (inRange_of_checkReferences hc))

theorem sound_of_field {s : Schema} {e : Expr} {f : Field} (h : field s e = .ok f) :
    e.Sound s.length := by
  obtain ⟨u, hc, hd⟩ := Outcome.bind_eq_ok.mp h
  have hi := inRange_of_checkReferences hc
  rw [columnsOfAll, columnsOfAll, List.append_nil] at hi
  exact sound_of_derive hd hi

end Expr

/-- What a node holds fits its input. -/
def Plan.NodeWellFormed : Plan → Prop
  | .empty _ => True
  | .memory batches s => ∀ b ∈ batches, b.schema = s
  | .file scan =>
    (∀ ps, scan.projection = some ps → ∀ i ∈ ps, 0 ≤ i ∧ i < scan.schema.length) ∧
      scan.schema.narrow? scan.projection = some scan.projected
  | .projection es p s =>
    ∃ t, p.schema = .ok t ∧ (∀ e ∈ es, e.Sound t.length) ∧ Expr.fields t es = .ok s
  | .selection e p =>
    ∃ t f, p.schema = .ok t ∧ e.Sound t.length ∧ Expr.field t e = .ok f ∧
      (f.type = .bool ∨ f.type = .null)
  | .limit count p s => p.schema = .ok s ∧ ∃ n : Nat, count = .literal (.int n) .uint64
  | .aggregate p groups aggregates s =>
    ∃ t, p.schema = .ok t ∧ (∀ e ∈ groups ++ aggregates, e.Sound t.length) ∧
      Expr.fields t (groups ++ aggregates) = .ok s
  | .bare => False

def Plan.WellFormed (p : Plan) : Prop := ∀ q ∈ p.nodes, q.NodeWellFormed

theorem Plan.wellFormed_self {p : Plan} (h : p.WellFormed) : p.NodeWellFormed :=
  h p (by cases p <;> simp [nodes])

theorem Plan.wellFormed_input {p q : Plan} (h : p.WellFormed) (hq : p.input? = some q) :
    q.WellFormed := by
  cases p with
  | projection | selection | limit | aggregate =>
    cases hq
    exact fun x hx => h x (List.mem_cons_of_mem _ hx)
  | empty | memory | file | bare => cases hq

namespace Frame

/-- Where the rows of a frame come from. -/
inductive Source
  | empty (schema : Schema)
  | batches (batches : List Batch)
  | file (path format : String) (schema : Schema) (options : ScanOptions)

def Source.frame (c : Context) : Source → Outcome Frame
  | .empty s => .ok (Frame.empty c s)
  | .batches bs => ofBatches c bs
  | .file path format s o => scan c path format s o

/-- One step in building a frame. -/
inductive Call
  | project (exprs : List Expr)
  | filter (predicate : Expr)
  | limit (count : Datum)
  | aggregate (groups aggregates : List Expr)

def apply (f : Frame) : Call → Outcome Frame
  | .project es => f.project es
  | .filter e => f.filter e
  | .limit d => f.limit d
  | .aggregate gs as => f.aggregate gs as

/-- All steps in order, up to the first that fails. -/
def applyAll (f : Frame) : List Call → Outcome Frame
  | [] => .ok f
  | call :: calls => do (← f.apply call).applyAll calls

/-- A frame that some source and some successful steps make in a context. -/
def Built (c : Context) (f : Frame) : Prop :=
  ∃ (source : Source) (calls : List Call),
    (source.frame c >>= fun g => g.applyAll calls) = .ok f

section calls
variable {f g : Frame} {s : Schema}

theorem project_ok {es : List Expr} (hs : f.schema = .ok s) (hg : f.project es = .ok g) :
    ∃ fs, Expr.fields s (Expr.expandWildcards s.length es) = .ok fs ∧ g.context = f.context ∧
      g.plan = .projection (Expr.expandWildcards s.length es) f.plan fs := by
  rw [project, hs, Outcome.ok_bind] at hg
  obtain ⟨fs, hfs, hg⟩ := Outcome.bind_eq_ok.mp hg
  cases hg
  exact ⟨fs, hfs, rfl, rfl⟩

theorem filter_ok {p : Expr} (hs : f.schema = .ok s) (hg : f.filter p = .ok g) :
    ∃ field, Expr.field s p = .ok field ∧ isPredicateType field.type = true ∧
      g.context = f.context ∧ g.plan = .selection p f.plan := by
  rw [filter, hs, Outcome.ok_bind] at hg
  obtain ⟨field, hfield, hg⟩ := Outcome.bind_eq_ok.mp hg
  split at hg
  · rename_i ht
    cases hg
    exact ⟨field, hfield, ht, rfl, rfl⟩
  · cases hg

theorem count_of_limit {d : Datum} (hg : f.limit d = .ok g) : ∃ n : Nat, d = .int n := by
  unfold limit at hg
  split at hg
  · exact ⟨_, rfl⟩
  · cases hg

theorem limit_ok {n : Nat} (hg : f.limit (.int n) = .ok g) :
    ∃ s, f.schema = .ok s ∧ g.context = f.context ∧
      g.plan = .limit (.literal (.int n) .uint64) f.plan s := by
  obtain ⟨s, hs, hg⟩ := Outcome.bind_eq_ok.mp hg
  cases hg
  exact ⟨s, hs, rfl, rfl⟩

theorem aggregate_ok {gs as : List Expr} (hs : f.schema = .ok s) (hg : f.aggregate gs as = .ok g) :
    ∃ fs, Expr.fields s (gs ++ as) = .ok fs ∧ g.context = f.context ∧
      g.plan = .aggregate f.plan gs as fs := by
  rw [aggregate, hs, Outcome.ok_bind] at hg
  obtain ⟨fs, hfs, hg⟩ := Outcome.bind_eq_ok.mp hg
  cases hg
  exact ⟨fs, hfs, rfl, rfl⟩

theorem context_apply {call : Call} (hg : f.apply call = .ok g) : g.context = f.context := by
  cases call with
  | project es =>
    obtain ⟨s, hs, -⟩ := Outcome.bind_eq_ok.mp hg
    obtain ⟨-, -, hctx, -⟩ := project_ok hs hg
    exact hctx
  | filter e =>
    obtain ⟨s, hs, -⟩ := Outcome.bind_eq_ok.mp hg
    obtain ⟨-, -, -, hctx, -⟩ := filter_ok hs hg
    exact hctx
  | limit d =>
    obtain ⟨n, rfl⟩ := count_of_limit hg
    obtain ⟨-, -, hctx, -⟩ := limit_ok hg
    exact hctx
  | aggregate gs as =>
    obtain ⟨s, hs, -⟩ := Outcome.bind_eq_ok.mp hg
    obtain ⟨-, -, hctx, -⟩ := aggregate_ok hs hg
    exact hctx

theorem context_applyAll {calls : List Call} (hg : f.applyAll calls = .ok g) :
    g.context = f.context := by
  induction calls generalizing f with
  | nil =>
    cases hg
    rfl
  | cons call calls ih =>
    obtain ⟨f', hf', hg⟩ := Outcome.bind_eq_ok.mp hg
    exact (ih hg).trans (context_apply hf')

end calls

theorem wellFormed_ofBatches {c : Context} {bs : List Batch} {f : Frame}
    (h : ofBatches c bs = .ok f) : f.plan.WellFormed := by
  simp only [ofBatches] at h
  split at h
  · rename_i he
    cases h
    intro q hq
    obtain rfl := List.mem_singleton.mp hq
    intro b hb
    obtain ⟨i, hi, rfl⟩ := List.getElem_of_mem hb
    have hall := List.filterMap_eq_nil_iff.mp (List.isEmpty_iff.mp he)
    have hi' := hall (i, bs[i]) (List.mem_mapIdx.mpr ⟨i, hi, rfl⟩)
    simpa using hi'
  · cases h

theorem checkPositions_ok {s : Schema} {ps : List Int} (h : checkPositions s (some ps) = .ok ()) :
    ∀ i ∈ ps, 0 ≤ i ∧ i < s.length := by
  have hn : ps.filter (fun j => !Schema.inRange s.length j) = [] := by
    cases hl : ps.filter fun j => !Schema.inRange s.length j with
    | nil => rfl
    | cons => simp [checkPositions, hl] at h
  intro i hi
  simpa [Schema.inRange] using List.filter_eq_nil_iff.mp hn i hi

theorem wellFormed_scan {c : Context} {path format : String} {s : Schema} {o : ScanOptions}
    {f : Frame} (h : scan c path format s o = .ok f) : f.plan.WellFormed := by
  obtain ⟨u, hc, h⟩ := Outcome.bind_eq_ok.mp h
  cases hn : s.narrow? o.projection with
  | none => simp [hn, fail] at h
  | some projected =>
    simp only [hn] at h
    cases h
    intro q hq
    obtain rfl := List.mem_singleton.mp hq
    refine ⟨?_, hn⟩
    intro ps hp
    rw [show o.projection = some ps from hp] at hc
    exact checkPositions_ok hc

theorem wellFormed_source {c : Context} {source : Source} {f : Frame}
    (h : source.frame c = .ok f) : f.plan.WellFormed := by
  cases source with
  | empty s =>
    cases h
    intro q hq
    obtain rfl := List.mem_singleton.mp hq
    trivial
  | batches bs => exact wellFormed_ofBatches h
  | file path format s o => exact wellFormed_scan h

theorem wellFormed_apply {f g : Frame} {call : Call} (h : f.apply call = .ok g)
    (hf : f.plan.WellFormed) : g.plan.WellFormed := by
  cases call with
  | project es =>
    obtain ⟨s, hs, h⟩ := Outcome.bind_eq_ok.mp h
    obtain ⟨t, ht, h⟩ := Outcome.bind_eq_ok.mp h
    cases h
    exact List.forall_mem_cons.mpr ⟨⟨s, hs, Expr.sound_of_fields ht, ht⟩, hf⟩
  | filter e =>
    obtain ⟨s, hs, h⟩ := Outcome.bind_eq_ok.mp h
    obtain ⟨field, he, h⟩ := Outcome.bind_eq_ok.mp h
    split at h
    · rename_i hp
      cases h
      have ht : field.type = .bool ∨ field.type = .null := by simpa [isPredicateType] using hp
      exact List.forall_mem_cons.mpr ⟨⟨s, field, hs, Expr.sound_of_field he, he, ht⟩, hf⟩
    · cases h
  | limit d =>
    simp only [apply, limit] at h
    split at h
    · rename_i n
      obtain ⟨s, hs, h⟩ := Outcome.bind_eq_ok.mp h
      cases h
      exact List.forall_mem_cons.mpr ⟨⟨hs, n, rfl⟩, hf⟩
    · cases h
  | aggregate gs as =>
    obtain ⟨s, hs, h⟩ := Outcome.bind_eq_ok.mp h
    obtain ⟨t, ht, h⟩ := Outcome.bind_eq_ok.mp h
    cases h
    exact List.forall_mem_cons.mpr ⟨⟨s, hs, Expr.sound_of_fields ht, ht⟩, hf⟩

theorem wellFormed_applyAll {calls : List Call} {f g : Frame} (h : f.applyAll calls = .ok g)
    (hf : f.plan.WellFormed) : g.plan.WellFormed := by
  induction calls generalizing f with
  | nil =>
    cases h
    exact hf
  | cons call calls ih =>
    obtain ⟨f', hc, h⟩ := Outcome.bind_eq_ok.mp h
    exact ih h (wellFormed_apply hc hf)

theorem wellFormed_of_built {c : Context} {f : Frame} (h : Built c f) : f.plan.WellFormed := by
  obtain ⟨source, calls, h⟩ := h
  obtain ⟨g, hg, h⟩ := Outcome.bind_eq_ok.mp h
  exact wellFormed_applyAll h (wellFormed_source hg)

theorem schema_of_wellFormed {p : Plan} (h : p.WellFormed) : ∃ s, p.schema = .ok s := by
  have hp := Plan.wellFormed_self h
  cases p with
  | bare => exact hp.elim
  | selection e p =>
    obtain ⟨t, f, ht, -⟩ := hp
    exact ⟨t, ht⟩
  | empty s => exact ⟨s, rfl⟩
  | memory bs s => exact ⟨s, rfl⟩
  | file scan => exact ⟨scan.projected, rfl⟩
  | projection es p s => exact ⟨s, rfl⟩
  | limit count p s => exact ⟨s, rfl⟩
  | aggregate p gs as s => exact ⟨s, rfl⟩

/-- Whatever a frame was built from and however many steps it took, every node of its plan is well
formed, and its schema is the one of its plan. -/
theorem plan_wellFormed_of_built {c : Context} {f : Frame} (h : Built c f) :
    (∀ q ∈ f.plan.nodes, q.NodeWellFormed) ∧
      ∃ s, f.schema = .ok s ∧ f.plan.schema = .ok s := by
  have hf := wellFormed_of_built h
  obtain ⟨s, hs⟩ := schema_of_wellFormed hf
  exact ⟨hf, s, hs, hs⟩

/-- Two batches, filtered, extended by a column, grouped and cut. -/
theorem plan_wellFormed_of_four_steps :
    ∃ f : Frame, Built (.here [] .standard) f ∧ f.plan.nodes.length = 5 ∧
      ((∀ q ∈ f.plan.nodes, q.NodeWellFormed) ∧
        ∃ s, f.schema = .ok s ∧ f.plan.schema = .ok s) := by
  have h : Built (.here [] .standard) _ :=
    ⟨.batches [⟨[⟨"k", .string, false⟩, ⟨"n", .int64, true⟩], 1,
      [[.text "a"], [.int 1]], rfl, by decide⟩,
        ⟨[⟨"k", .string, false⟩, ⟨"n", .int64, true⟩], 0, [[], []], rfl, by decide⟩],
      [.filter (.binary (.column 1) ">" (.literal (.int 0) .int64)),
        .project [.wildcard, .alias (.binary (.column 1) "/" (.column 1)) "one"],
        .aggregate [.column 0] [.sum (.column 2)], .limit (.int 3)], rfl⟩
  exact ⟨_, h, rfl, plan_wellFormed_of_built h⟩

end Frame
end LazyQuery
