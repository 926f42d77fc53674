import LazyQuery.Proofs.Engine.Slicing
import LazyQuery.Proofs.Frame.Emptiness
import LazyQuery.Proofs.Frame.Pushdown
import LazyQuery.Proofs.Frame.Stepping

/-! The names that columns are looked for by against the names that they have. A selection or a
grouping gives its columns and its layout the same new names; a source has the names of its fields,
and stored batches have them only where every field has a name, since a column without one is named
for its position. -/
namespace LazyQuery
open Engine

namespace Engine

theorem findColumn_eq_ok_iff {h : Header} {k : Nat} {e : String × ColumnType} {name : String}
    (hn : (h.map (·.1)).Nodup) (hk : h[k]? = some e) (hs : name ≠ "*")
    (hp : isPattern name = false) :
    findColumn h name = .ok (k, e.2) ↔ name = e.1 := by
  constructor
  · intro hf
    unfold findColumn at hf
    rw [if_neg hs, hp, if_neg Bool.false_ne_true] at hf
    split at hf
    · rename_i i hi
      obtain ⟨hlt, hname, -⟩ := List.findIdx?_eq_some_iff_getElem.mp hi
      obtain ⟨rfl, -⟩ := Prod.mk.inj (Except.ok.inj hf)
      rw [List.getElem?_eq_getElem hlt] at hk
      cases hk
      exact (of_decide_eq_true hname).symm
    · cases hf
  · rintro rfl
    exact findColumn_of_getElem? hn hk hs hp

theorem names_of_columns {s : Schema} {c : Header} (h : s.columns = .ok c) :
    c.map (·.1) = s.map (·.name) := by
  rw [Schema.columns] at h
  induction s generalizing c with
  | nil =>
    cases h
    rfl
  | cons f s ih =>
    obtain ⟨name, t, nullable⟩ := f
    rw [fieldColumns] at h
    obtain ⟨t, -, h⟩ := Outcome.bind_eq_ok.mp h
    obtain ⟨rest, hrest, h⟩ := Outcome.bind_eq_ok.mp h
    cases h
    rw [List.map_cons, List.map_cons, ih hrest]

theorem heldNames_eq_iff {s : Schema} :
    heldNames s = s.map (·.name) ↔ ∀ f ∈ s, f.name ≠ "" := by
  constructor
  · intro h f hf hname
    obtain ⟨k, hk⟩ := List.getElem?_of_mem hf
    have hheld : (heldNames s)[k]? = some (heldName k f) :=
      by rw [heldNames, List.getElem?_mapIdx, hk]; rfl
    rw [h, List.getElem?_map, hk] at hheld
    exact heldName_ne_empty k f ((Option.some.inj hheld).symm.trans hname)
  · intro h
    apply List.ext_getElem?
    intro k
    rw [heldNames, List.getElem?_mapIdx, List.getElem?_map]
    cases hk : s[k]? with
    | none => rfl
    | some f => exact congrArg some (if_neg (h f (List.mem_of_getElem? hk)))

end Engine

/-- The fields have names of their own, which the engine takes as they stand. -/
structure Schema.Literal (s : Schema) : Prop where
  distinct : (s.map (·.name)).Nodup
  plain : ∀ f ∈ s, f.name ≠ "*"
  single : ∀ f ∈ s, isPattern f.name = false

/-- The call makes columns of its own, under new names. -/
def Frame.Call.renames : Frame.Call → Bool
  | .project _ | .aggregate .. => true
  | .filter _ | .limit _ => false

namespace Opened
variable {o o' : Opened} {s t : Schema} {call : Frame.Call} {calls : List Frame.Call}

/-- Columns and layout are as many as the fields, columns have names of their own, and no name in
the layout asks for all columns or is a pattern. -/
structure Labelled (o : Opened) (s : Schema) : Prop where
  width : o.header.length = s.length
  layout : o.layout.length = s.length
  distinct : (o.header.map (·.1)).Nodup
  plain : ∀ f ∈ o.layout, f.name ≠ "*"
  single : ∀ f ∈ o.layout, isPattern f.name = false

def Agrees (o : Opened) : Prop := o.header.map (·.1) = o.layout.map (·.name)

/-- What a layout has at a position finds the column there just where that is the column's name. -/
theorem Labelled.found_iff (h : o.Labelled s) {k : Nat} {f : Field} {e : String × ColumnType}
    (hf : o.layout[k]? = some f) (he : o.header[k]? = some e) :
    (term o.layout (.column k) >>= resolve o.header) = .ok (.column k, e.2) ↔ f.name = e.1 := by
  have hlt : k < o.layout.length := (List.getElem?_eq_some_iff.mp hf).1
  have hat : o.layout.at? k = some f := by
    have hp : Schema.position? o.layout.length k = some k := by simp [Schema.position?, hlt]
    rw [Schema.at?, hp, Option.bind_some, hf]
  have hterm : term o.layout (.column k) = .ok (.column f.name) := by rw [term, hat]
  rw [hterm, Outcome.ok_bind, resolve,
    ← findColumn_eq_ok_iff h.distinct he (h.plain f (List.mem_of_getElem? hf))
      (h.single f (List.mem_of_getElem? hf))]
  constructor
  · intro hr
    obtain ⟨⟨i, u⟩, hfound, hr⟩ := Outcome.bind_eq_ok.mp hr
    cases hr
    exact hfound
  · intro hfound
    rw [hfound]
    rfl

theorem labelled_of_positional (hl : o.layout = positionalLayout s)
    (hn : o.header.map (·.1) = (List.range s.length).map positionalName) : o.Labelled s ∧
    o.Agrees := by
  have hnames : (positionalLayout s).map (·.name) = (List.range s.length).map positionalName := by
    apply List.ext_getElem?
    intro k
    rcases Nat.lt_or_ge k s.length with hk | hk
    · simp [positionalLayout, hk]
    · simp [positionalLayout, hk]
  refine ⟨⟨(placed_of_names hl hn).width, ?_, ?_, fun f hf => ?_, fun f hf => ?_⟩, ?_⟩
  · rw [hl, positionalLayout, List.length_mapIdx]
  · rw [hn]
    exact List.nodup_range.map positionalName_injective
  · rw [hl] at hf
    obtain ⟨i, hi, rfl⟩ := List.mem_mapIdx.mp hf
    exact positionalName_ne_star i
  · rw [hl] at hf
    obtain ⟨i, hi, rfl⟩ := List.mem_mapIdx.mp hf
    exact isPattern_positionalName i
  · rw [Agrees, hn, hl, hnames]

theorem labelled_of_literal (hs : s.Literal) (hl : o.layout = s)
    (hn : o.header.map (·.1) = s.map (·.name)) : o.Labelled s ∧ o.Agrees := by
  subst hl
  refine ⟨⟨?_, rfl, hn ▸ hs.distinct, hs.plain, hs.single⟩, hn⟩
  rw [← List.length_map (·.1), hn, List.length_map]

/-- A call either names columns and layout anew, or leaves both as they are. -/
theorem Step.names (h : Step s o call t o') :
    (call.renames = true ∧ o'.Labelled t ∧ o'.Agrees) ∨
      (call.renames = false ∧ t = s ∧ o'.header = o.header ∧ o'.layout = o.layout) := by
  cases h with
  | project hf hx | whole hf hx =>
    exact .inl ⟨rfl, labelled_of_positional rfl
      (names_select o ((length_formulas? hx).trans (Expr.length_fields hf).symm))⟩
  | filter _ => exact .inr ⟨rfl, rfl, rfl, rfl⟩
  | limit n => exact .inr ⟨rfl, rfl, rfl, rfl⟩
  | group _ hf hk hx =>
    refine .inl ⟨rfl, labelled_of_positional rfl (names_group o ?_)⟩
    rw [Expr.length_fields hf, List.length_append, List.length_append, length_formulas? hk,
      length_formulas? hx]

theorem Labelled.step (h : o.Labelled s) (hstep : Step s o call t o') : o'.Labelled t := by
  obtain ⟨-, hnew, -⟩ | ⟨-, rfl, hh, hl⟩ := hstep.names
  · exact hnew
  · exact ⟨hh ▸ h.width, hl ▸ h.layout, hh ▸ h.distinct, hl ▸ h.plain, hl ▸ h.single⟩

theorem Step.agrees_iff (h : Step s o call t o') :
    o'.Agrees ↔ o.Agrees ∨ call.renames = true := by
  obtain ⟨hc, -, hnew⟩ | ⟨hc, -, hh, hl⟩ := h.names
  · simp [hc, hnew]
  · rw [Agrees, Agrees, hh, hl, hc, or_iff_left Bool.false_ne_true]

/-- Whatever calls are made, columns and layout go together; they agree from the first call on that
names them anew, if they did not from the start. -/
theorem Steps.labelled (h : o.Steps s calls t o') (ho : o.Labelled s) :
    o'.Labelled t ∧ (o'.Agrees ↔ o.Agrees ∨ ∃ call ∈ calls, call.renames = true) := by
  induction h with
  | nil => exact ⟨ho, by simp⟩
  | cons _ hstep _ ih =>
    obtain ⟨hlast, hagrees⟩ := ih (ho.step hstep)
    refine ⟨hlast, ?_⟩
    simp only [hagrees, hstep.agrees_iff, or_assoc, List.mem_cons, exists_eq_or_imp]

end Opened

namespace Frame
variable {files : Files} {c : Context} {f : Frame} {calls : List Call} {source : Source}
    {s : Schema}
  {o : Opened}

/-- No rows, stored batches, or a delimited text, with fields that are taken by their names; of a
text each column at most once. -/
def Source.IsLiteral : Source → Prop
  | .empty s => s.Literal
  | .batches bs => (firstSchema bs).Literal
  | .file _ format s o => format = "csv" ∧ s.Literal ∧ ∀ ps, o.projection = some ps →
      ps.Nodup

/-- Batches are stored of which some field has no name. -/
def Source.HasNameless : Source → Prop
  | .batches bs => ∃ f ∈ firstSchema bs, f.name = ""
  | .empty _ | .file .. => False

theorem labelled_empty (hs : s.Literal) (ho : Plan.opened? files (.empty s) = some o) :
    o.Labelled s ∧ o.Agrees := by
  obtain ⟨r, hr, hh, -⟩ := Plan.relationOf_of_opened? ho
  obtain ⟨table, htable, hr⟩ := Outcome.bind_eq_ok.mp hr
  obtain ⟨h, hc, hh'⟩ := Outcome.bind_eq_ok.mp htable
  cases hr
  cases hh'
  have hnames := names_of_columns hc
  rw [Header.collapse_eq_self (hnames ▸ hs.distinct)] at hh
  exact Opened.labelled_of_literal hs rfl (Except.ok.inj hh ▸ hnames)

theorem labelled_batches {bs : List Batch} (hs : (firstSchema bs).Literal)
    (hb : ∀ b ∈ bs, b.schema = firstSchema bs)
    (ho : Plan.opened? files (.memory bs (firstSchema bs)) = some o) :
    o.Labelled (firstSchema bs) ∧ (o.Agrees ↔ ¬(Source.batches bs).HasNameless) := by
  by_cases hne : bs = []
  · subst hne
    obtain ⟨hl, ha⟩ := labelled_empty hs ho
    exact ⟨hl, by simp [ha, Source.HasNameless, firstSchema]⟩
  · rw [Plan.opened?_memory hne hb] at ho
    obtain ⟨h, hh, rfl⟩ := Outcome.map_toOption_eq_some.mp ho
    obtain ⟨-, hn, rfl⟩ := storedHeader_eq_ok.mp hh
    refine ⟨⟨List.length_mapIdx, rfl, names_heldHeader _ ▸ hn, hs.plain, hs.single⟩, ?_⟩
    rw [Opened.Agrees, names_heldHeader, heldNames_eq_iff, Source.HasNameless]
    push Not
    rfl

theorem forall₂_of_project? {ps : List Int} {fs : Schema} (h : s.project? ps = some fs) :
    List.Forall₂ (fun i f => s.at? i = some f) ps fs := by
  induction ps generalizing fs with
  | nil =>
    cases h
    exact .nil
  | cons i ps ih =>
    obtain ⟨f, gs, rfl, hf, hgs⟩ := project?_cons h
    exact .cons hf (ih hgs)

theorem literal_project {ps : List Int} {fs : Schema} (hs : s.Literal) (hn : ps.Nodup)
    (hp : ∀ i ∈ ps, 0 ≤ i ∧ i < s.length) (h : s.project? ps = some fs) : fs.Literal := by
  have hat : List.Forall₂ (fun i f => s[Int.toNat i]? = some f) ps fs := by
    refine ((List.forall₂_and_left _ _).mpr ⟨hp, forall₂_of_project? h⟩).imp fun i f hi =>
      ?_
    have hposition : Schema.position? s.length i = some i.toNat :=
      Schema.position?_of_inRange (by simpa [Schema.inRange] using hi.1)
    rw [← hi.2, Schema.at?, hposition, Option.bind_some]
  have hmem : ∀ f ∈ fs, f ∈ s := by
    intro f hf
    obtain ⟨i, -, hi⟩ := Outcome.exists_of_forall₂ hat.flip hf
    exact List.mem_of_getElem? hi
  refine ⟨?_, fun f hf => hs.plain f (hmem f hf), fun f hf => hs.single f (hmem f hf)⟩
  -- fields of one name are at one position, which is taken once
  have hnames : fs.map (fun f => some f.name) = ps.map fun i =>
      (s.map (·.name))[Int.toNat i]? := by
    rw [← List.forall₂_eq_eq_eq, List.forall₂_map_left_iff, List.forall₂_map_right_iff]
    refine hat.flip.imp fun f i hi => ?_
    rw [List.getElem?_map, hi, Option.map_some]
  have hinj : (ps.map fun i => (s.map (·.name))[Int.toNat i]?).Nodup := by
    refine List.Nodup.map_on (fun i hi j hj he => ?_) hn
    obtain ⟨hi₀, hi₁⟩ := hp i hi
    obtain ⟨hj₀, -⟩ := hp j hj
    have hk : i.toNat = j.toNat :=
      (List.getElem?_inj (by rw [List.length_map]; omega) hs.distinct).mp he
    omega
  rw [← hnames] at hinj
  exact List.Nodup.of_map some (by rwa [List.map_map])

section delimited
variable {scan : FileScan} {r : Relation} {h : Header}

theorem names_fileTable (hcsv : scan.format = "csv") (hs : scan.schema.Literal)
    (hr : fileTable scan = .ok r)
    (hh : r.header files = .ok h) : h.map (·.1) = scan.schema.map (·.name) := by
  rw [fileTable, hcsv] at hr
  obtain ⟨columns, hc, hr⟩ := Outcome.bind_eq_ok.mp hr
  obtain ⟨separator, -, hr⟩ := Outcome.bind_eq_ok.mp hr
  cases hr
  have hnames := names_of_columns hc
  rw [← Except.ok.inj hh, Header.collapse_eq_self (hnames ▸ hs.distinct), hnames]

/-- Of a delimited text the columns are taken that are wanted, under their names. -/
theorem names_fileRelation (hcsv : scan.format = "csv") (hs : scan.schema.Literal)
    (hp : scan.projected.Literal) (hall : scan.projection = none → scan.projected = scan.schema)
    (hr : fileRelation scan = .ok r) (hh : r.header files = .ok h) :
    h.map (·.1) = scan.projected.map (·.name) := by
  obtain ⟨text, htext, hr⟩ := Outcome.bind_eq_ok.mp hr
  cases hprojection : scan.projection with
  | none =>
    rw [hprojection] at hr
    cases hr
    rw [hall hprojection]
    exact names_fileTable hcsv hs htext hh
  | some ps =>
    rw [hprojection] at hr
    cases hr
    obtain ⟨header, -, hh⟩ := Outcome.bind_eq_ok.mp hh
    obtain ⟨found, hfound, hh⟩ := Outcome.bind_eq_ok.mp hh
    have hstar : "*" ∉ scan.projected.map (·.name) := by simpa using hp.plain
    have hsingle : ∀ n ∈ scan.projected.map (·.name), isPattern n = false :=
      by simpa using hp.single
    have hnames : found.map (·.1) = scan.projected.map (·.name) := by
      rw [(names_of_resolve_names hsingle hfound).1, flatMap_namesAsked hstar]
    rw [distinct_found (hnames ▸ hp.distinct)] at hh
    rw [← Except.ok.inj hh, List.map_map]
    exact hnames

end delimited

theorem labelled_file {path : String} {options : ScanOptions} (hs : s.Literal)
    (hn : ∀ ps, options.projection = some ps → ps.Nodup)
    (hf : scan c path "csv" s options = .ok f) :
    ∃ t, f.schema = .ok t ∧ ∀ o, f.plan.opened? files = some o → o.Labelled t ∧
    o.Agrees := by
  obtain ⟨_, hcheck, hf⟩ := Outcome.bind_eq_ok.mp hf
  cases hprojected : s.narrow? options.projection with
  | none => simp [hprojected, fail] at hf
  | some projected =>
    rw [hprojected] at hf
    cases hf
    refine ⟨projected, rfl, fun o ho => ?_⟩
    have hall : options.projection = none → projected = s := by
      intro hp
      rw [hp] at hprojected
      exact (Option.some.inj hprojected).symm
    have hwanted : projected.Literal := by
      cases hp : options.projection with
      | none => exact hall hp ▸ hs
      | some ps =>
        rw [hp] at hprojected hcheck
        exact literal_project hs (hn ps hp) (checkPositions_ok hcheck) hprojected
    obtain ⟨r, hr, hh, -⟩ := Plan.relationOf_of_opened? ho
    obtain ⟨scanned, hscanned, hr⟩ := Outcome.bind_eq_ok.mp hr
    obtain ⟨rfl, hlayout⟩ := Prod.mk.inj (Except.ok.inj hr)
    exact Opened.labelled_of_literal hwanted hlayout.symm
      (names_fileRelation rfl hs hwanted hall hscanned hh)

theorem labelled_source (hs : source.IsLiteral) (hf : source.frame c = .ok f) :
    ∃ t, f.schema = .ok t ∧ ∀ o, f.plan.opened? files = some o →
      o.Labelled t ∧ (o.Agrees ↔ ¬source.HasNameless) := by
  cases source with
  | empty s =>
    cases hf
    refine ⟨s, rfl, fun o ho => ?_⟩
    obtain ⟨hl, ha⟩ := labelled_empty hs ho
    exact ⟨hl, iff_of_true ha not_false⟩
  | batches bs =>
    obtain ⟨hb, rfl⟩ := ofBatches_eq_ok.mp hf
    exact ⟨firstSchema bs, rfl, fun o ho => labelled_batches hs hb ho⟩
  | file path format s options =>
    obtain ⟨rfl, hlit, hn⟩ := hs
    obtain ⟨t, ht, hfile⟩ := labelled_file hlit hn hf
    exact ⟨t, ht, fun o ho => ⟨(hfile o ho).1, iff_of_true (hfile o ho).2 not_false⟩⟩

/-- What calls on a source come to has one column and one name in the layout for each field of the
schema, and the columns have names of their own. The columns have the names of the layout unless
fields of stored batches are without a name and no call has named the columns anew. A column is
found at its own position just where it has the name of the layout there; and each field is read
from the column at its own position. -/
theorem labelled_after {r : Relation} {layout : Schema} {h : Header} (hs : source.IsLiteral)
    (hf : source.after c calls = .ok f) (hr : relationOf f.plan = .ok (r, layout))
    (hh : r.header files = .ok h) :
    ∃ t, f.schema = .ok t ∧ h.length = t.length ∧ layout.length = t.length ∧
      (h.map (·.1)).Nodup ∧
      (h.map (·.1) = layout.map (·.name) ↔
        ¬source.HasNameless ∨ ∃ call ∈ calls, call.renames = true) ∧
      (∀ (k : Nat) (field : Field) (e : String × ColumnType), layout[k]? = some field →
        h[k]? = some e →
        ((term layout (.column k) >>= resolve h) = .ok (.column k, e.2) ↔ field.name = e.1)) ∧
      ∀ columns : Chunks, columns.length = h.length →
        Export.convertAll t columns = (t.zip columns).mapM fun x =>
          Export.convertColumn x.2.1 x.1.type x.2.2 := by
  obtain ⟨f₀, hf₀, hf⟩ := Outcome.bind_eq_ok.mp hf
  have hopened : f.plan.opened? files = some ⟨layout, h, _⟩ := Plan.opened?_of_relationOf hr hh
  obtain ⟨s, hschema, hsource⟩ := labelled_source hs hf₀
  obtain ⟨t, o, ht, ho, hsteps⟩ := steps_of_applyAll hschema hf hopened
  obtain ⟨hl, ha⟩ := hsource o ho
  obtain ⟨hlast, hagrees⟩ := hsteps.labelled hl
  refine ⟨t, ht, hlast.width, hlast.layout, hlast.distinct, hagrees.trans (or_congr_left ha),
    fun k field e hk he => hlast.found_iff hk he, fun columns hc => ?_⟩
  exact Export.convertAll_eq_mapM (hc.trans hlast.width).ge

/-- A batch of a column without a name and of one with a name. -/
def halfNamed : Batch where
  schema := [⟨"", .int64, true⟩, ⟨"b", .int64, true⟩]
  rows := 1
  columns := [[.int 3], [.int 5]]
  width := rfl
  height := by decide

def halfNamedTable : Relation :=
  .table (heldHeader halfNamed.schema) 1 (storedColumns halfNamed.schema [halfNamed])

/-- A column of a batch that has no name is held under another, which the layout does not know, so
that it is not found. It makes no difference any more once columns have been chosen. -/
theorem labelled_after_halfNamed :
    (∃ f r layout h, (Source.batches [halfNamed]).after (.here [] .standard) [] = .ok f ∧
      relationOf f.plan = .ok (r, layout) ∧ r.header [] = .ok h ∧
      h.map (·.1) ≠ layout.map (·.name) ∧
      (term layout (.column 0) >>= resolve h) ≠ .ok (.column 0, .integer .int64)) ∧
    ∃ f r layout h,
      (Source.batches [halfNamed]).after (.here [] .standard) [.project [.column 1]] = .ok f ∧
      relationOf f.plan = .ok (r, layout) ∧ r.header [] = .ok h ∧
      h.map (·.1) = layout.map (·.name) := by
  have hs : (Source.batches [halfNamed]).IsLiteral := ⟨by decide, by decide, by decide⟩
  have hnameless : (Source.batches [halfNamed]).HasNameless := ⟨_, List.mem_cons_self .., rfl⟩
  constructor
  · have hf : (Source.batches [halfNamed]).after (.here [] .standard) [] =
        .ok ⟨.memory [halfNamed] halfNamed.schema, .here [] .standard⟩ := rfl
    have hh : halfNamedTable.header [] = .ok (heldHeader halfNamed.schema) := rfl
    obtain ⟨-, -, -, -, -, hagrees, hfound, -⟩ := labelled_after hs hf rfl hh
    refine ⟨_, _, _, _, hf, rfl, hh, fun h => ?_, fun h => ?_⟩
    · obtain hn | ⟨call, hcall, -⟩ := hagrees.mp h
      · exact hn hnameless
      · cases hcall
    · exact absurd ((hfound 0 _ _ rfl rfl).mp h) (by decide)
  · have hf : (Source.batches [halfNamed]).after (.here [] .standard) [.project [.column 1]] =
        .ok ⟨.projection [.column 1] (.memory [halfNamed] halfNamed.schema)
          [⟨"b", .int64, true⟩],
          .here [] .standard⟩ := rfl
    have hh : (Relation.select (.terms [(positionalName 0, .column "b")]) halfNamedTable).header
        [] = .ok [(positionalName 0, .integer .int64)] := rfl
    obtain ⟨-, -, -, -, -, hagrees, -⟩ := labelled_after hs hf rfl hh
    exact ⟨_, _, _, _, hf, rfl, hh, hagrees.mpr (.inr ⟨_, List.mem_cons_self .., rfl⟩)⟩

end Frame
end LazyQuery
