import LazyQuery.Proofs.Engine.Renaming
import LazyQuery.Proofs.Frame.Building
import LazyQuery.Proofs.Frame.Limiting

/-! The same batches under other names. Expressions refer to columns by position, yet the
columns of a source are asked for by name. Other names make no difference as long as the names
that are asked for are ones that the engine takes for the name of a column; where one is not,
nothing is collected. -/
namespace LazyQuery
open Engine

/-- The names of all fields of batches. -/
def Batch.names (bs : List Batch) : List String := bs.flatMap fun b => b.schema.map (·.name)

namespace Opened
variable {o o' : Opened} {s s' : Schema}

theorem Resembles.refl (o : Opened) (is : List Int) : o.Resembles is o :=
    ⟨fun _ _ => rfl, rfl, rfl⟩

theorem select_congr (hr : o.run = o'.run) (hs : s.nameless = s'.nameless)
    (xs : List (Formula × ColumnType)) : o.select xs s = o'.select xs s' := by
  rw [select, select, hr, positionalLayout_nameless hs]

theorem group_congr (hr : o.run = o'.run) (hs : s.nameless = s'.nameless)
    (ks xs : List (Formula × ColumnType)) : o.group ks xs s = o'.group ks xs s' := by
  rw [group, group, hr, positionalLayout_nameless hs]

end Opened

namespace Frame
open Outcome
variable {files : Files} {settings : Assignments} {c : Context} {f g : Frame} {calls : List Call}

/-- The schema of the first batch. -/
def firstSchema (bs : List Batch) : Schema := (bs.head?.map (·.schema)).getD []

/-- What is collected in this process after some calls on batches. -/
def collectAll (files : Files) (settings : Assignments) (bs : List Batch) (calls : List Call) :
    Outcome (List Batch) := do
  let f ← ofBatches (.here settings .standard) bs
  let g ← f.applyAll calls
  (g.collect files).outcome

/-- The columns of a source with `n` of them that are asked for by name: those of the predicates up
to the first projection or aggregation, and those of that one. Behind it columns are named for
their positions. -/
def asked (n : Nat) : List Call → List Int
  | [] => []
  | .project es :: _ => (Expr.expandWildcards n es).flatMap Expr.reached
  | .filter e :: calls => e.reached ++ asked n calls
  | .limit _ :: calls => asked n calls
  | .aggregate gs as :: _ => (gs ++ as).flatMap Expr.reached

/-- Columns of these names can be held beside one another, and those asked for are found. -/
def Legible (s : Schema) (calls : List Call) : Prop :=
  (heldNames s).Nodup ∧
    ∀ i ∈ asked s.length calls, ∀ f ∈ s.at? i, isLegible s.length f.name = true

instance (s : Schema) (calls : List Call) : Decidable (Legible s calls) :=
  inferInstanceAs (Decidable (_ ∧ _))

/-- Frames of one context from which calls make the same, but for names. -/
structure Resembles (files : Files) (c : Context) (calls : List Call) (f g : Frame) : Prop where
  left : f.context = c
  right : g.context = c
  schema : ∃ s s', f.schema = .ok s ∧ g.schema = .ok s' ∧ s.nameless = s'.nameless
  opened : ∀ s o, f.schema = .ok s → f.plan.opened? files = some o →
    ∃ o', g.plan.opened? files = some o' ∧ o.Resembles (asked s.length calls) o'

namespace Resembles

theorem project {es : List Expr} (h : f.Resembles files c (.project es :: calls) g) :
    Follows (Resembles files c calls) (f.project es) (g.project es) := by
  obtain ⟨s, s', hs, hs', hn⟩ := h.schema
  intro f' hf'
  obtain ⟨fs, hfs, hctx, hplan⟩ := project_ok hs hf'
  obtain ⟨fs', hfs', hfn⟩ := Expr.fields_nameless hn _ fs hfs
  refine ⟨⟨.projection (Expr.expandWildcards s.length es) g.plan fs', g.context⟩, ?_, ?_⟩
  · rw [Frame.project, hs', Outcome.ok_bind]
    dsimp only
    rw [← Schema.length_nameless hn, hfs']
    rfl
  · refine ⟨hctx.trans h.left, h.right,
      ⟨fs, fs', by rw [Frame.schema, hplan]; rfl, rfl, hfn⟩, ?_⟩
    intro _ o _ ho
    rw [hplan, Plan.opened?_projection] at ho
    obtain ⟨o₀, ho₀, ho⟩ := Option.bind_eq_some_iff.mp ho
    obtain ⟨xs, hxs, rfl⟩ := Option.map_eq_some_iff.mp ho
    obtain ⟨o₀', ho₀', hres⟩ := h.opened s o₀ hs ho₀
    refine ⟨_, ?_, .refl _ _⟩
    dsimp only
    rw [Plan.opened?_projection, ho₀', Option.bind_some, ← formulas?_congr hres.found, hxs,
      Option.map_some, Opened.select_congr hres.run hfn]

theorem aggregate {gs as : List Expr} (h : f.Resembles files c (.aggregate gs as :: calls) g) :
    Follows (Resembles files c calls) (f.aggregate gs as) (g.aggregate gs as) := by
  obtain ⟨s, s', hs, hs', hn⟩ := h.schema
  intro f' hf'
  obtain ⟨fs, hfs, hctx, hplan⟩ := aggregate_ok hs hf'
  obtain ⟨fs', hfs', hfn⟩ := Expr.fields_nameless hn _ fs hfs
  refine ⟨⟨.aggregate g.plan gs as fs', g.context⟩, ?_, ?_⟩
  · rw [Frame.aggregate, hs', Outcome.ok_bind, hfs']
    rfl
  · refine ⟨hctx.trans h.left, h.right,
      ⟨fs, fs', by rw [Frame.schema, hplan]; rfl, rfl, hfn⟩, ?_⟩
    intro _ o _ ho
    rw [hplan, Plan.opened?_aggregate] at ho
    obtain ⟨o₀, ho₀, ho⟩ := Option.bind_eq_some_iff.mp ho
    obtain ⟨ks, hks, ho⟩ := Option.bind_eq_some_iff.mp ho
    obtain ⟨xs, hxs, rfl⟩ := Option.map_eq_some_iff.mp ho
    obtain ⟨o₀', ho₀', hres⟩ := h.opened s o₀ hs ho₀
    have hfound := hres.found
    rw [asked, List.flatMap_append] at hfound
    refine ⟨_, ?_, .refl _ _⟩
    dsimp only
    rw [Plan.opened?_aggregate, ho₀', Option.bind_some,
      ← formulas?_congr fun i hi => hfound i (List.mem_append.mpr (.inl hi)), hks,
      Option.bind_some,
      ← formulas?_congr fun i hi => hfound i (List.mem_append.mpr (.inr hi)), hxs,
      Option.map_some, Opened.select_congr hres.run hfn, Opened.group_congr hres.run hfn]

theorem filter {e : Expr} (h : f.Resembles files c (.filter e :: calls) g) :
    Follows (Resembles files c calls) (f.filter e) (g.filter e) := by
  obtain ⟨s, s', hs, hs', hn⟩ := h.schema
  intro f' hf'
  obtain ⟨field, hfield, htype, hctx, hplan⟩ := filter_ok hs hf'
  obtain ⟨field', hfield', hfn⟩ := Expr.field_nameless hn e field hfield
  rw [(Field.nameless_eq.mp hfn).1] at htype
  have hf's : f'.schema = .ok s := by
    rw [Frame.schema, hplan]
    exact hs
  refine ⟨⟨.selection e g.plan, g.context⟩, ?_, ?_⟩
  · rw [Frame.filter, hs', Outcome.ok_bind, hfield', Outcome.ok_bind, if_pos htype]
  · refine ⟨hctx.trans h.left, h.right, ⟨s, s', hf's, hs', hn⟩, ?_⟩
    intro t o ht ho
    obtain rfl : s = t := Except.ok.inj (hf's.symm.trans ht)
    rw [hplan, Plan.opened?_selection] at ho
    obtain ⟨o₀, ho₀, ho⟩ := Option.bind_eq_some_iff.mp ho
    obtain ⟨x, hx, ho⟩ := Option.bind_eq_some_iff.mp ho
    obtain ⟨o₀', ho₀', hres⟩ := h.opened s o₀ hs ho₀
    have hfound := hres.found
    rw [asked] at hfound
    rw [formula?_congr fun i hi => hfound i (List.mem_append.mpr (.inl hi))] at hx
    split at ho
    · rename_i hbool
      cases ho
      refine ⟨o₀'.keep x.1, ?_, fun i hi => hfound i (List.mem_append.mpr (.inr hi)),
        hres.types, ?_⟩
      · dsimp only
        rw [Plan.opened?_selection, ho₀', Option.bind_some, hx, Option.bind_some, if_pos hbool]
      · rw [Opened.keep, Opened.keep, hres.run]
    · cases ho

theorem limit {d : Datum} (h : f.Resembles files c (.limit d :: calls) g) :
    Follows (Resembles files c calls) (f.limit d) (g.limit d) := by
  obtain ⟨s, s', hs, hs', hn⟩ := h.schema
  intro f' hf'
  obtain ⟨n, rfl⟩ := count_of_limit hf'
  obtain ⟨s₁, hs₁, hctx, hplan⟩ := limit_ok hf'
  obtain rfl : s = s₁ := Except.ok.inj (hs.symm.trans hs₁)
  have hf's : f'.schema = .ok s := by
    rw [Frame.schema, hplan]
    rfl
  refine ⟨⟨.limit (.literal (.int n) .uint64) g.plan s', g.context⟩, ?_, ?_⟩
  · unfold Frame.limit
    rw [hs']
    rfl
  · refine ⟨hctx.trans h.left, h.right, ⟨s, s', hf's, rfl, hn⟩, ?_⟩
    intro t o ht ho
    obtain rfl : s = t := Except.ok.inj (hf's.symm.trans ht)
    rw [hplan, Plan.opened?_limit] at ho
    obtain ⟨o₀, ho₀, ho⟩ := Option.bind_eq_some_iff.mp ho
    obtain ⟨m, hcount, rfl⟩ := Option.map_eq_some_iff.mp ho
    obtain ⟨o₀', ho₀', hres⟩ := h.opened s o₀ hs ho₀
    refine ⟨o₀'.take m, ?_, hres.found, hres.types, ?_⟩
    · dsimp only
      rw [Plan.opened?_limit, ho₀', Option.bind_some, hcount, Option.map_some]
    · rw [Opened.take, Opened.take, hres.run]

/-- Frames that differ in names are still so after one call. -/
theorem apply {call : Call} (h : f.Resembles files c (call :: calls) g) :
    Follows (Resembles files c calls) (f.apply call) (g.apply call) := by
  cases call with
  | project es => exact h.project
  | filter e => exact h.filter
  | limit d => exact h.limit
  | aggregate gs as => exact h.aggregate

theorem applyAll (h : f.Resembles files c calls g) :
    Follows (Resembles files c []) (f.applyAll calls) (g.applyAll calls) := by
  induction calls generalizing f g with
  | nil => exact .ok h
  | cons call calls ih => exact h.apply.bind fun _ _ h => ih h

/-- What is collected differs in names only. -/
theorem collect (h : f.Resembles files (.here settings .standard) [] g) :
    Follows (fun bs cs => bs.map Batch.nameless = cs.map Batch.nameless) (f.collect files).outcome
      (g.collect files).outcome := by
  intro bs hb
  obtain ⟨size, hsize, hb⟩ := (collect_eq_ok h.left).mp hb
  obtain ⟨o, s, t, cells, ho, hs, ht, hcells, hb⟩ := answer_eq_ok.mp hb
  obtain ⟨_, s', hs₁, hs', hn⟩ := h.schema
  obtain rfl : s = _ := Except.ok.inj (hs.symm.trans hs₁)
  obtain ⟨o', ho', hres⟩ := h.opened s o hs ho
  obtain ⟨cs, hcs, hbc⟩ := Export.batches_nameless hn _ size bs hb
  refine ⟨cs, (collect_eq_ok h.right).mpr ⟨size, hsize, answer_eq_ok.mpr ?_⟩, hbc⟩
  exact ⟨o', s', t, cells, ho', hs', hres.run ▸ ht, hcells, hres.exported ▸ hcs⟩

end Resembles

theorem ofBatches_eq_ok {bs : List Batch} :
    ofBatches c bs = .ok f ↔ (∀ b ∈ bs, b.schema = firstSchema bs) ∧
    f = ⟨.memory bs (firstSchema bs), c⟩ := by
  have hm : (mismatched (firstSchema bs) bs).isEmpty = true ↔
      ∀ b ∈ bs, b.schema = firstSchema bs := by
    rw [List.isEmpty_iff, mismatched, List.filterMap_eq_nil_iff]
    constructor
    · intro h b hb
      obtain ⟨i, hi, rfl⟩ := List.getElem_of_mem hb
      have hi' := h (i, bs[i]) (List.mem_mapIdx.mpr ⟨i, hi, rfl⟩)
      simpa using hi'
    · intro h e he
      obtain ⟨i, hi, rfl⟩ := List.mem_mapIdx.mp he
      exact if_pos (h bs[i] (List.getElem_mem hi))
  have ho : ofBatches c bs = if (mismatched (firstSchema bs) bs).isEmpty then
      .ok ⟨.memory bs (firstSchema bs), c⟩
      else .error (.schema { mismatchedBatches := mismatched (firstSchema bs) bs }) := rfl
  rw [ho, ← hm]
  split
  · rename_i h
    simp [h, eq_comm]
  · rename_i h
    constructor
    · intro hx
      cases hx
    · rintro ⟨hs, -⟩
      exact absurd hs h

/-- The columns of a frame with types that are still asked for by name are found. -/
def Found (files : Files) (calls : List Call) (f : Frame) : Prop :=
  ∃ s o, f.schema = .ok s ∧ f.plan.opened? files = some o ∧
    ∀ i ∈ asked s.length calls, (columnAt? o.layout o.header i).isSome = true

theorem found_of_apply {call : Call} (hg : f.apply call = .ok g) (h : g.Found files calls) :
    f.Found files (call :: calls) := by
  obtain ⟨t, o, ht, ho, hfound⟩ := h
  cases call with
  | project es =>
    obtain ⟨s, hs, -⟩ := Outcome.bind_eq_ok.mp hg
    obtain ⟨fs, -, -, hplan⟩ := project_ok hs hg
    rw [hplan, Plan.opened?_projection] at ho
    obtain ⟨o₀, ho₀, ho⟩ := Option.bind_eq_some_iff.mp ho
    obtain ⟨xs, hxs, -⟩ := Option.map_eq_some_iff.mp ho
    exact ⟨s, o₀, hs, ho₀, found_of_formulas? hxs⟩
  | aggregate gs as =>
    obtain ⟨s, hs, -⟩ := Outcome.bind_eq_ok.mp hg
    obtain ⟨fs, -, -, hplan⟩ := aggregate_ok hs hg
    rw [hplan, Plan.opened?_aggregate] at ho
    obtain ⟨o₀, ho₀, ho⟩ := Option.bind_eq_some_iff.mp ho
    obtain ⟨ks, hks, ho⟩ := Option.bind_eq_some_iff.mp ho
    obtain ⟨xs, hxs, -⟩ := Option.map_eq_some_iff.mp ho
    have hall : formulas? o₀.layout o₀.header (gs ++ as) = some (ks ++ xs) := by
      rw [formulas?_append, hks, hxs]
      rfl
    exact ⟨s, o₀, hs, ho₀, found_of_formulas? hall⟩
  | filter e =>
    obtain ⟨s, hs, -⟩ := Outcome.bind_eq_ok.mp hg
    obtain ⟨field, -, -, -, hplan⟩ := filter_ok hs hg
    rw [schema, hplan] at ht
    obtain rfl : s = t := Except.ok.inj (hs.symm.trans ht)
    rw [hplan, Plan.opened?_selection] at ho
    obtain ⟨o₀, ho₀, ho⟩ := Option.bind_eq_some_iff.mp ho
    obtain ⟨x, hx, ho⟩ := Option.bind_eq_some_iff.mp ho
    refine ⟨s, o₀, hs, ho₀, fun i hi => ?_⟩
    split at ho
    · cases ho
      rcases List.mem_append.mp hi with hi | hi
      · exact (formula?_eq_some.mp hx).isSome_find i hi
      · exact hfound i hi
    · cases ho
  | limit d =>
    obtain ⟨n, rfl⟩ := count_of_limit hg
    obtain ⟨s, hs, -, hplan⟩ := limit_ok hg
    rw [schema, hplan] at ht
    obtain rfl : s = t := Except.ok.inj ht
    rw [hplan, Plan.opened?_limit] at ho
    obtain ⟨o₀, ho₀, ho⟩ := Option.bind_eq_some_iff.mp ho
    obtain ⟨m, -, rfl⟩ := Option.map_eq_some_iff.mp ho
    exact ⟨s, o₀, hs, ho₀, hfound⟩

theorem found_of_applyAll (hg : f.applyAll calls = .ok g) (h : g.Found files []) :
    f.Found files calls := by
  induction calls generalizing f with
  | nil =>
    cases hg
    exact h
  | cons call calls ih =>
    obtain ⟨f', hf', hg⟩ := Outcome.bind_eq_ok.mp hg
    exact found_of_apply hf' (ih hg)

theorem found_of_collect (hf : f.context = .here settings .standard) {bs : List Batch}
    (h : (f.collect files).outcome = .ok bs) : f.Found files [] := by
  obtain ⟨_, h⟩ := answer_of_collect hf h
  obtain ⟨o, s, -, -, ho, hs, -⟩ := answer_eq_ok.mp h
  exact ⟨s, o, hs, ho, fun i hi => absurd hi List.not_mem_nil⟩

section sources
variable {bs cs : List Batch}

theorem opened?_ofBatches (hne : bs ≠ []) (hf : ofBatches c bs = .ok f) {o : Opened}
    (ho : f.plan.opened? files = some o) :
    f.schema = .ok (firstSchema bs) ∧ o.layout = firstSchema bs ∧
      storedHeader (firstSchema bs) = .ok o.header := by
  obtain ⟨hs, rfl⟩ := ofBatches_eq_ok.mp hf
  rw [Plan.opened?_memory hne hs] at ho
  obtain ⟨h, hh, rfl⟩ := Outcome.map_toOption_eq_some.mp ho
  exact ⟨rfl, rfl, hh⟩

theorem ne_nil_of_nameless (hne : bs ≠ []) (hb : bs.map Batch.nameless = cs.map Batch.nameless) :
    cs ≠ [] := by
  rintro rfl
  exact hne (List.map_eq_nil_iff.mp hb)

theorem firstSchema_nameless (hb : bs.map Batch.nameless = cs.map Batch.nameless) :
    (firstSchema bs).nameless = (firstSchema cs).nameless := by
  have hm : ∀ ds, (firstSchema ds).nameless = firstSchema (ds.map Batch.nameless) := by
    intro ds
    cases ds <;> rfl
  rw [hm bs, hm cs, hb]

theorem resembles_ofBatches (hne : bs ≠ []) (hb : bs.map Batch.nameless = cs.map Batch.nameless)
    (hm : (∀ b ∈ bs, b.schema = firstSchema bs) → ∀ b ∈ cs, b.schema = firstSchema cs)
    (hl : Legible (firstSchema bs) calls) (hl' : Legible (firstSchema cs) calls)
    (hp : ∀ f ∈ firstSchema bs, isPattern f.name = false)
    (hp' : ∀ f ∈ firstSchema cs, isPattern f.name = false) :
    Follows (Resembles files c calls) (ofBatches c bs) (ofBatches c cs) := by
  intro f hf
  obtain ⟨hs, rfl⟩ := ofBatches_eq_ok.mp hf
  have hn := firstSchema_nameless hb
  have hne' := ne_nil_of_nameless hne hb
  refine ⟨_, ofBatches_eq_ok.mpr ⟨hm hs, rfl⟩, rfl, rfl, ⟨_, _, rfl, rfl, hn⟩, ?_⟩
  intro s o hs' ho
  cases hs'
  rw [Plan.opened?_memory hne hs] at ho
  obtain ⟨h, hh, rfl⟩ := Outcome.map_toOption_eq_some.mp ho
  obtain ⟨hheld, -, rfl⟩ := storedHeader_eq_ok.mp hh
  have hh' : storedHeader (firstSchema cs) = .ok (heldHeader (firstSchema cs)) :=
    storedHeader_eq_ok.mpr ⟨allHeld_nameless hn ▸ hheld, hl'.1, rfl⟩
  refine ⟨_, by rw [Plan.opened?_memory hne' (hm hs), hh']; rfl, ?_, types_nameless hn, ?_⟩
  · intro i hi
    have hi' := hi
    rw [Schema.length_nameless hn] at hi'
    exact columnAt?_nameless hn hh hh' (fun f hf => ⟨hl.2 i hi f hf,
      hp f (Schema.mem_of_at? hf)⟩)
      fun f hf => ⟨hl'.2 i hi' f hf, hp' f (Schema.mem_of_at? hf)⟩
  · dsimp only
    rw [totalRows_nameless hb, storedColumns_nameless hn hb]

theorem follows_collectAll (hne : bs ≠ []) (hb : bs.map Batch.nameless = cs.map Batch.nameless)
    (hm : (∀ b ∈ bs, b.schema = firstSchema bs) → ∀ b ∈ cs, b.schema = firstSchema cs)
    (hl : Legible (firstSchema bs) calls) (hl' : Legible (firstSchema cs) calls)
    (hp : ∀ f ∈ firstSchema bs, isPattern f.name = false)
    (hp' : ∀ f ∈ firstSchema cs, isPattern f.name = false) :
    Follows (fun ds ds' => ds.map Batch.nameless = ds'.map Batch.nameless)
      (collectAll files settings bs calls) (collectAll files settings cs calls) :=
  (resembles_ofBatches hne hb hm hl hl' hp hp').bind fun _ _ h => h.applyAll.bind fun _ _ h =>
  h.collect

theorem legible_of_collectAll (hne : bs ≠ []) {ds : List Batch}
    (h : collectAll files settings bs calls = .ok ds) : Legible (firstSchema bs) calls := by
  obtain ⟨f, hf, h⟩ := Outcome.bind_eq_ok.mp h
  obtain ⟨g, hg, h⟩ := Outcome.bind_eq_ok.mp h
  have hctx : f.context = .here settings .standard := by
    obtain ⟨-, rfl⟩ := ofBatches_eq_ok.mp hf
    rfl
  have hfound := found_of_collect ((context_applyAll hg).trans hctx) h
  obtain ⟨s, o, hs, ho, hfound⟩ := found_of_applyAll hg hfound
  obtain ⟨hs', hlayout, hh⟩ := opened?_ofBatches hne hf ho
  obtain rfl : s = firstSchema bs := Except.ok.inj (hs.symm.trans hs')
  obtain ⟨-, hnodup, -⟩ := storedHeader_eq_ok.mp hh
  refine ⟨hnodup, fun i hi field hfield => ?_⟩
  obtain ⟨x, hx⟩ := Option.isSome_iff_exists.mp (hfound i hi)
  rw [hlayout, columnAt?, Option.mem_def.mp hfield] at hx
  exact isLegible_of_findColumn hh (Outcome.toOption_eq_some.mp hx)

theorem collectAll_error (hne : bs ≠ []) (hl : ¬Legible (firstSchema bs) calls) :
    ∃ e, collectAll files settings bs calls = .error e := by
  cases h : collectAll files settings bs calls with
  | error e => exact ⟨e, rfl⟩
  | ok ds => exact absurd (legible_of_collectAll hne h) hl

variable {rename : String → String}

theorem firstSchema_renamed (rename : String → String) (bs : List Batch) :
    firstSchema (bs.map (Batch.renamed rename)) = (firstSchema bs).renamed rename := by
  cases bs <;> rfl

theorem map_nameless_renamed (rename : String → String) (bs : List Batch) :
    (bs.map (Batch.renamed rename)).map Batch.nameless = bs.map Batch.nameless := by
  rw [List.map_map]
  exact List.map_congr_left fun b _ => b.nameless_renamed rename

theorem schemas_renamed (h : ∀ b ∈ bs, b.schema = firstSchema bs) :
    ∀ b ∈ bs.map (Batch.renamed rename),
      b.schema = firstSchema (bs.map (Batch.renamed rename)) := by
  intro d hd
  obtain ⟨b, hb, rfl⟩ := List.mem_map.mp hd
  rw [firstSchema_renamed, ← h b hb]
  rfl

theorem schemas_of_renamed
    (hr : ∀ m ∈ Batch.names bs, ∀ n ∈ Batch.names bs, rename m = rename n → m = n)
    (h : ∀ b ∈ bs.map (Batch.renamed rename),
      b.schema = firstSchema (bs.map (Batch.renamed rename))) :
    ∀ b ∈ bs, b.schema = firstSchema bs := by
  intro b hb
  have hs := h _ (List.mem_map_of_mem hb)
  rw [firstSchema_renamed] at hs
  refine Schema.renamed_inj (fun f hf g hg => hr _ ?_ _ ?_) hs
  · exact List.mem_flatMap.mpr ⟨b, hb, List.mem_map_of_mem hf⟩
  · obtain ⟨a, as, rfl⟩ := List.exists_cons_of_ne_nil (List.ne_nil_of_mem hb)
    exact List.mem_flatMap.mpr ⟨a, List.mem_cons_self .., List.mem_map_of_mem hg⟩

/-- To give the fields of batches other names changes nothing but the names of what is collected,
as long as the old and the new names can be held and asked for. Where they cannot, nothing is
collected under them. -/
theorem collectAll_renamed (hne : bs ≠ [])
    (hr : ∀ m ∈ Batch.names bs, ∀ n ∈ Batch.names bs, rename m = rename n → m = n)
    (files : Files) (settings : Assignments) (calls : List Call) :
    (Legible (firstSchema bs) calls → Legible ((firstSchema bs).renamed rename) calls →
        (∀ f ∈ firstSchema bs ++ (firstSchema bs).renamed rename, isPattern f.name = false) →
          (collectAll files settings bs calls).toOption.map (List.map Batch.nameless) =
            (collectAll files settings (bs.map (Batch.renamed rename)) calls).toOption.map
              (List.map Batch.nameless)) ∧
      (¬Legible (firstSchema bs) calls →
        ∃ e, collectAll files settings bs calls = .error e) ∧
      (¬Legible ((firstSchema bs).renamed rename) calls →
        ∃ e, collectAll files settings (bs.map (Batch.renamed rename)) calls = .error e) := by
  have hne' : bs.map (Batch.renamed rename) ≠ [] := fun h => hne (List.map_eq_nil_iff.mp h)
  have hb := map_nameless_renamed rename bs
  rw [← firstSchema_renamed]
  refine ⟨fun hl hl' hp => ?_, collectAll_error hne, collectAll_error hne'⟩
  obtain ⟨hp, hp'⟩ := List.forall_mem_append.mp hp
  exact (follows_collectAll hne hb.symm schemas_renamed hl hl' hp hp').map_toOption_eq
    (follows_collectAll hne' hb (schemas_of_renamed hr) hl' hl hp' hp)

end sources

def lettered : Batch where
  schema := [⟨"a", .int64, true⟩, ⟨"b", .string, true⟩]
  rows := 2
  columns := [[.int 3, .int 5], [.text "u", .text "v"]]
  width := rfl
  height := by decide

/-- The first column gets the name that stands for all columns. -/
def starred (name : String) : String := if name = "a" then "*" else name

/-- With a star for the name of the first column the second is collected as before, and the first,
which was collected before, not at all. -/
theorem collectAll_renamed_star :
    (collectAll [] [] [lettered] [.project [.column 1]]).toOption.map (List.map Batch.nameless) =
        (collectAll [] [] [lettered.renamed starred] [.project [.column 1]]).toOption.map
          (List.map Batch.nameless) ∧
      (∃ ds, collectAll [] [] [lettered] [.project [.column 0]] = .ok ds ∧
        Batch.totalRows ds = 2) ∧
      ∃ e, collectAll [] [] [lettered.renamed starred] [.project [.column 0]] = .error e := by
  have hne : [lettered] ≠ [] := List.cons_ne_nil _ _
  have hr : ∀ m ∈ Batch.names [lettered], ∀ n ∈ Batch.names [lettered],
      starred m = starred n → m = n := by
    decide
  obtain ⟨hsame, -, -⟩ := collectAll_renamed hne hr [] [] [.project [.column 1]]
  obtain ⟨-, -, hfails⟩ := collectAll_renamed hne hr [] [] [.project [.column 0]]
  exact ⟨hsame (by decide) (by decide) (by decide), ⟨_, rfl, rfl⟩, hfails (by decide)⟩

end Frame
end LazyQuery
