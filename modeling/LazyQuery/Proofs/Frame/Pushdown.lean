import LazyQuery.Proofs.Context.Answer
import LazyQuery.Proofs.Engine.Literal
import LazyQuery.Proofs.Engine.Selection
import LazyQuery.Proofs.Frame.Building

/-! Columns of a file, chosen by the scan or by a projection on top of it. The scan asks for them by
their names and the projection names them anew, so that names decide whether the two agree. -/
namespace LazyQuery
open Engine

/-- The names of the chosen fields can be asked for as they stand: none is there twice, and a star
is the name of the only column of the file. -/
def FileScan.Askable (files : Files) (scan : FileScan) : Prop :=
  ((scan.projected.map (·.name)).Nodup ∧ "*" ∉ scan.projected.map (·.name)) ∨
    (scan.projected.map (·.name) = ["*"] ∧
      ∀ r h, fileTable scan = .ok r → r.header files = .ok h → h.length = 1)

namespace Frame

section building
variable {s fs : Schema} {ps : List Int}

theorem project?_cons {i : Int} (h : s.project? (i :: ps) = some fs) :
    ∃ f gs, fs = f :: gs ∧ s.at? i = some f ∧ s.project? ps = some gs := by
  rw [Schema.project?, List.mapM_cons] at h
  obtain ⟨f, hf, h⟩ := Option.bind_eq_some_iff.mp h
  obtain ⟨gs, hgs, h⟩ := Option.bind_eq_some_iff.mp h
  cases h
  exact ⟨f, gs, rfl, hf, hgs⟩

theorem project?_of_checkPositions (h : checkPositions s (some ps) = .ok ()) :
    ∃ fs, s.project? ps = some fs := by
  have hr := checkPositions_ok h
  clear h
  induction ps with
  | nil => exact ⟨[], rfl⟩
  | cons i ps ih =>
    obtain ⟨fs, hfs⟩ := ih fun j hj => hr j (List.mem_cons_of_mem _ hj)
    have hi : Schema.inRange s.length i = true := by
      simpa [Schema.inRange] using hr i (List.mem_cons_self ..)
    obtain ⟨f, hf⟩ := Schema.at?_of_inRange hi
    refine ⟨f :: fs, ?_⟩
    rw [Schema.project?] at hfs ⊢
    rw [List.mapM_cons, hf, hfs]
    rfl

theorem deriveAll_columns (h : s.project? ps = some fs) :
    Expr.deriveAll s (ps.map .column) = .ok fs := by
  induction ps generalizing fs with
  | nil =>
    cases h
    rfl
  | cons i ps ih =>
    obtain ⟨f, gs, rfl, hf, hgs⟩ := project?_cons h
    rw [List.map_cons, Expr.deriveAll, Expr.derive, hf]
    dsimp only
    rw [Outcome.ok_bind, ih hgs]
    rfl

theorem checkReferences_columns (h : checkPositions s (some ps) = .ok ()) :
    Expr.checkReferences s.length (ps.map .column) = .ok () := by
  have hc : (ps.map Expr.column).flatMap Expr.columns = ps := by
    rw [List.flatMap_map]
    exact List.flatMap_singleton' ps
  have ho : Expr.outOfRange s.length (ps.map .column) = [] := by
    rw [Expr.outOfRange, hc, List.filter_eq_nil_iff.mpr]
    · rfl
    · intro i hi
      simpa [Schema.inRange] using checkPositions_ok h i hi
  have hw : (ps.map Expr.column).any Expr.hasWildcard = false := by
    rw [List.any_map]
    exact List.any_eq_false.mpr fun i _ => Bool.false_ne_true
  rw [Expr.checkReferences, ho, hw]
  rfl

theorem expandWildcards_columns (n : Nat) (ps : List Int) :
    Expr.expandWildcards n (ps.map .column) = ps.map .column := by
  rw [Expr.expandWildcards, List.flatMap_map]
  exact List.map_eq_flatMap.symm

theorem positionalTerms_columns (h : s.project? ps = some fs) (start : Nat) :
    positionalTerms start s (ps.map .column) = .ok (columnTerms start (fs.map (·.name))) := by
  induction ps generalizing fs start with
  | nil =>
    cases h
    rfl
  | cons i ps ih =>
    obtain ⟨f, gs, rfl, hf, hgs⟩ := project?_cons h
    rw [List.map_cons, positionalTerms_cons, term, hf]
    dsimp only
    rw [Outcome.ok_bind, ih hgs]
    rfl

theorem fields_columns (hp : checkPositions s (some ps) = .ok ()) (h : s.project? ps = some fs) :
    Expr.fields s (ps.map .column) = .ok fs := by
  rw [Expr.fields, checkReferences_columns hp]
  exact deriveAll_columns h

end building

/-- The chosen columns of a file, chosen by the scan. -/
def pushed (c : Context) (path format : String) (s : Schema) (o : ScanOptions) (ps : List Int) :
    Outcome Frame := scan c path format s { o with projection := some ps }

/-- The chosen columns of a file, chosen from a scan of all of them. -/
def above (c : Context) (path format : String) (s : Schema) (o : ScanOptions) (ps : List Int) :
    Outcome Frame := do
  (← scan c path format s { o with projection := none }).project (ps.map .column)

section plans
variable {c : Context} {path format : String} {s fs : Schema} {o : ScanOptions} {ps : List Int}

/-- The scan of some columns, and the scan of all of them. -/
def narrowScan (path format : String) (s fs : Schema) (o : ScanOptions)
    (ps : List Int) : FileScan :=
  ⟨path, format, s, fs, some ps, o.hasHeader, o.delimiter⟩

def wideScan (path format : String) (s : Schema) (o : ScanOptions) : FileScan :=
  ⟨path, format, s, s, none, o.hasHeader, o.delimiter⟩

theorem pushed_ok (hp : checkPositions s (some ps) = .ok ()) (h : s.project? ps = some fs) :
    pushed c path format s o ps = .ok ⟨.file (narrowScan path format s fs o ps), c⟩ := by
  rw [pushed, scan, hp, Outcome.ok_bind]
  dsimp only [Schema.narrow?]
  rw [h]
  rfl

theorem above_ok (hp : checkPositions s (some ps) = .ok ()) (h : s.project? ps = some fs) :
    above c path format s o ps =
      .ok ⟨.projection (ps.map .column) (.file (wideScan path format s o)) fs, c⟩ := by
  have hs : scan c path format s { o with projection := none } =
      .ok ⟨.file (wideScan path format s o), c⟩ := rfl
  rw [above, hs, Outcome.ok_bind, project]
  dsimp only [schema, Plan.schema]
  rw [Outcome.ok_bind]
  dsimp only [wideScan]
  rw [expandWildcards_columns, fields_columns hp h]
  rfl

theorem answer_pushed (files : Files) (size : Int) :
    answer files (.file (narrowScan path format s fs o ps)) size =
      (fileTable (narrowScan path format s fs o ps) >>= fun r =>
        execute files (.select (.names (fs.map (·.name))) r) fs size) := by
  rw [answer, relationOf, fileRelation]
  simp only [bind_assoc, Outcome.ok_bind]
  rfl

theorem answer_above (h : s.project? ps = some fs) (files : Files) (size : Int) :
    answer files (.projection (ps.map .column) (.file (wideScan path format s o)) fs) size =
      (fileTable (narrowScan path format s fs o ps) >>= fun r =>
        execute files (.select (.terms (columnTerms 0 (fs.map (·.name)))) r) fs size) := by
  have ht : fileTable (wideScan path format s o) =
      fileTable (narrowScan path format s fs o ps) := rfl
  rw [answer, relationOf, relationOf, fileRelation, ht]
  simp only [bind_assoc, Outcome.ok_bind]
  congr 1
  funext r
  dsimp only [wideScan]
  rw [Outcome.ok_bind, positionalTerms_columns h]
  rfl

variable {files : Files} {size : Int}

theorem plain_names (hpl : ∀ f ∈ fs, isPattern f.name = false) :
    ∀ n ∈ fs.map (·.name), isPattern n = false := by
  intro n hn
  obtain ⟨f, hf, rfl⟩ := List.mem_map.mp hn
  exact hpl f hf

theorem answer_askable (h : s.project? ps = some fs) (hpl : ∀ f ∈ fs, isPattern f.name = false)
    (ha : (narrowScan path format s fs o ps).Askable files) :
    answer files (.file (narrowScan path format s fs o ps)) size =
      answer files (.projection (ps.map .column) (.file (wideScan path format s o)) fs) size := by
  rw [answer_pushed, answer_above h]
  cases hr : fileTable (narrowScan path format s fs o ps) with
  | error e => rfl
  | ok r =>
    rw [Outcome.ok_bind, Outcome.ok_bind]
    apply execute_alike
    intro header hh
    rcases ha with ⟨hn, hs⟩ | ⟨hstar, hone⟩
    · exact alike_columnTerms hn hs (plain_names hpl) header 0
    · obtain ⟨e, rfl⟩ := List.length_eq_one_iff.mp (hone r header hr hh)
      rw [show fs.map (·.name) = ["*"] from hstar]
      exact alike_star e 0

theorem answer_above_star (h : s.project? ps = some fs) (hstar : fs.map (·.name) = ["*"])
    (ha : ¬(narrowScan path format s fs o ps).Askable files) :
    ∃ e, answer files (.projection (ps.map .column) (.file (wideScan path format s o)) fs) size =
      .error e := by
  rw [answer_above h, hstar]
  cases hr : fileTable (narrowScan path format s fs o ps) with
  | error e => exact ⟨e, rfl⟩
  | ok r =>
    rw [Outcome.ok_bind]
    cases hh : r.header files with
    | error e => exact ⟨e, execute_select_error hh⟩
    | ok header =>
      have hw : header.length ≠ 1 := by
        intro hl
        refine ha (.inr ⟨hstar, fun r' h' hr' hh' => ?_⟩)
        cases hr.symm.trans hr'
        cases hh.symm.trans hh'
        exact hl
      obtain ⟨e, he⟩ := resolve_star_error hw 0
      exact ⟨e, execute_of_resolve_error hh he⟩

theorem answer_pushed_repeated (hpl : ∀ f ∈ fs, isPattern f.name = false)
    (hstar : fs.map (·.name) ≠ ["*"]) (ha : ¬(narrowScan path format s fs o ps).Askable files) :
    ∃ e, answer files (.file (narrowScan path format s fs o ps)) size = .error e := by
  rw [answer_pushed]
  cases fileTable (narrowScan path format s fs o ps) with
  | error e => exact ⟨e, rfl⟩
  | ok r =>
    rw [Outcome.ok_bind]
    have hn : ¬((fs.map (·.name)).Nodup ∧ "*" ∉ fs.map (·.name)) := fun hn => ha (.inl hn)
    cases hh : r.header files with
    | error e => exact ⟨e, execute_select_error hh⟩
    | ok header =>
      cases hf : (Choice.names (fs.map (·.name))).resolve header with
      | error e => exact ⟨e, execute_of_resolve_error hh hf⟩
      | ok found =>
        -- either a column would come out twice, or nothing would come out for the fields
        rcases repeated_of_resolve_names (plain_names hpl) hf hn hstar with hd | rfl
        · exact ⟨_, execute_repeated hh hf hd⟩
        · apply execute_narrow
          · rw [header_select hh, hf]
            rfl
          · rintro rfl
            exact hn ⟨List.nodup_nil, List.not_mem_nil⟩

end plans

section collecting
variable {files : Files} {settings : Assignments} {p q : Plan}

theorem collect_congr (h : ∀ size : Nat, answer files p size = answer files q size) :
    ((Context.here settings .standard).collect files p).outcome =
      ((Context.here settings .standard).collect files q).outcome := by
  dsimp only [Context.collect]
  rw [Context.outcome_collectHere, Context.outcome_collectHere]
  simp only [h]

theorem collect_fails (h : ∀ size : Nat, ∃ e, answer files p size = .error e) :
    ∃ e, ((Context.here settings .standard).collect files p).outcome = .error e := by
  dsimp only [Context.collect]
  rw [Context.outcome_collectHere]
  cases Settings.batchSize ⟨settings, standardCatalog⟩ with
  | error e => exact ⟨e, rfl⟩
  | ok size =>
    obtain ⟨e, he⟩ := h size
    rw [Outcome.ok_bind, he]
    exact ⟨_, rfl⟩

end collecting

/-- Columns chosen by a scan and columns chosen from it have one schema. If none of their names is a
pattern, they have the same rows where the names can be asked for as they stand. Where they cannot,
one of the two fails whatever the other does: the projection if all that is asked for is a star, the
scan otherwise. -/
theorem collect_pushed (settings : Assignments) (path format : String) {s : Schema}
    (o : ScanOptions) {ps : List Int} (hp : checkPositions s (some ps) = .ok ()) :
    ∃ f g fs, s.project? ps = some fs ∧
      pushed (.here settings .standard) path format s o ps = .ok f ∧
      above (.here settings .standard) path format s o ps = .ok g ∧
      f.schema = .ok fs ∧ g.schema = .ok fs ∧
      ((∀ f ∈ fs, isPattern f.name = false) → ∀ files,
        ((narrowScan path format s fs o ps).Askable files →
          (f.collect files).outcome = (g.collect files).outcome) ∧
        (¬(narrowScan path format s fs o ps).Askable files → fs.map (·.name) = ["*"] →
          ∃ e, (g.collect files).outcome = .error e) ∧
        (¬(narrowScan path format s fs o ps).Askable files → fs.map (·.name) ≠ ["*"] →
          ∃ e, (f.collect files).outcome = .error e)) := by
  obtain ⟨fs, h⟩ := project?_of_checkPositions hp
  refine ⟨_, _, fs, h, pushed_ok hp h, above_ok hp h, rfl, rfl,
    fun hpl files => ⟨?_, ?_, ?_⟩⟩
  · intro ha
    exact collect_congr fun size => answer_askable h hpl ha
  · intro ha hstar
    exact collect_fails fun size => answer_above_star h hstar ha
  · intro ha hstar
    exact collect_fails fun size => answer_pushed_repeated hpl hstar ha

def twoColumns : Files :=
  [("a.parquet", .columnar ⟨[⟨"a", .int64, true⟩, ⟨"b", .string, true⟩], 2,
    [[.int 1, .int 2], [.text "x", .text "y"]], rfl, by decide⟩)]

/-- The first column of two, taken twice: a projection has it twice, and a scan fails. -/
theorem collect_pushed_twice :
    ∃ f g, pushed (.here [] .standard) "a.parquet" "parquet"
        [⟨"a", .int64, true⟩, ⟨"b", .string, true⟩] {} [0, 0] = .ok f ∧
      above (.here [] .standard) "a.parquet" "parquet"
        [⟨"a", .int64, true⟩, ⟨"b", .string, true⟩] {} [0, 0] = .ok g ∧
      f.schema = g.schema ∧ (∃ e, (f.collect twoColumns).outcome = .error e) ∧
      ∃ bs, (g.collect twoColumns).outcome = .ok bs ∧ Batch.totalRows bs = 2 := by
  have hp : checkPositions [⟨"a", .int64, true⟩, ⟨"b", .string, true⟩] (some [0, 0]) =
      .ok () := rfl
  obtain ⟨f, g, fs, hfs, hf, hg, hsf, hsg, h⟩ := collect_pushed [] "a.parquet" "parquet" {} hp
  refine ⟨f, g, hf, hg, hsf.trans hsg.symm, ?_, ?_⟩
  · cases hfs
    refine (h (by decide) twoColumns).2.2 ?_ (by decide)
    rintro (⟨hn, -⟩ | ⟨hn, -⟩)
    · exact absurd hn (by decide)
    · exact absurd hn (by decide)
  · cases hg
    exact ⟨_, rfl, rfl⟩

end Frame
end LazyQuery
