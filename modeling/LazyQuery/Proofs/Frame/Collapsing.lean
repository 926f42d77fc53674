import LazyQuery.Proofs.Engine.Composition
import LazyQuery.Proofs.Frame.Filtering

/-! A projection of a projection, and the one projection in which the expressions of the first stand
in the place of the columns of the second. They have the same fields, and they collect the same rows
as soon as every expression of the first gets to a column. -/
namespace LazyQuery
open Engine

theorem Expr.isWildcard_of_fields {s t : Schema} {es : List Expr} (h : fields s es = .ok t) :
    ∀ e ∈ es, e.isWildcard = false := by
  intro e he
  obtain ⟨f, -, hf⟩ := Outcome.exists_of_forall₂ (deriveAll_eq_ok.mp (fields_eq_ok.mp h).2) he
  exact isWildcard_of_derive hf

namespace Frame
variable {files : Files} {settings : Assignments} {d g h : Frame} {s t u : Schema}
    {es fs : List Expr}

theorem project_of_fields (hs : d.schema = .ok s) (hes : Expr.fields s es = .ok t) :
    d.project es = .ok ⟨.projection es d.plan t, d.context⟩ := by
  rw [project, hs, Outcome.ok_bind, Expr.expandWildcards_eq (Expr.isWildcard_of_fields hes)]
  dsimp only
  rw [hes]
  rfl

def threeColumns : Schema :=
    [⟨"k", .string, false⟩, ⟨"n", .int64, true⟩, ⟨"n", .int64, false⟩]

def quotientFirst : List Expr := [.alias (.binary (.column 1) "/" (.column 2)) "q", .column 0]

/-- Fields are derived from fields. With the expressions of a list in the place of the columns,
whatever has a field over the fields of the list has the same name, type and nullability over the
input of the list; so a projection of a projection has the schema of one projection. -/
theorem field_substituted (hes : Expr.fields s es = .ok t) :
    (∀ f field, Expr.field t f = .ok field → Expr.field s (f.substitute es) = .ok field) ∧
      ∀ (d : Frame) (fs : List Expr) (u : Schema),
        d.schema = .ok s → Expr.fields t fs = .ok u →
        ∃ g h k, d.project es = .ok g ∧ g.project fs = .ok h ∧
          d.project (fs.map (Expr.substitute es)) = .ok k ∧ h.schema = .ok u ∧
          k.schema = .ok u := by
  refine ⟨fun f field hf => Expr.field_substitute hes hf, fun d fs u hs hfs => ?_⟩
  have hsub := Expr.fields_substituteAll hes hfs
  rw [Expr.substituteAll_eq_map] at hsub
  exact ⟨_, _, _, project_of_fields hs hes, project_of_fields rfl hfs, project_of_fields hs hsub,
    rfl, rfl⟩

/-- A column in the middle of a projection, and a comparison with it. -/
theorem field_substituted_quotient :
    Expr.fields threeColumns quotientFirst =
        .ok [⟨"q", .double, true⟩, ⟨"k", .string, false⟩] ∧
      Expr.field threeColumns ((Expr.binary (.column 0) ">" (.column 0)).substitute quotientFirst) =
        .ok ⟨"q > q", .bool, true⟩ :=
  ⟨rfl, (field_substituted rfl).1 _ _ rfl⟩

theorem answer_collapsed {p : Plan} (hp : ∀ e ∈ es, e.isPlain = true)
    (hes : ∀ e ∈ es, e.columns ≠ [])
    (hne : es ≠ []) (ht : t.length = es.length) {size : Int} {bs : List Batch}
    (hb : answer files (.projection fs (.projection es p t) u) size = .ok bs) :
    answer files (.projection (fs.map (Expr.substitute es)) p u) size = .ok bs := by
  have hschema : (Plan.projection fs (.projection es p t) u).schema =
      (Plan.projection (fs.map (Expr.substitute es)) p u).schema := rfl
  refine answer_of_opened hschema (fun o' ho' => ?_) hb
  rw [Plan.opened?_projection, Plan.opened?_projection] at ho'
  obtain ⟨o₁, ho₁, ho'⟩ := Option.bind_eq_some_iff.mp ho'
  obtain ⟨o, ho, ho₁⟩ := Option.bind_eq_some_iff.mp ho₁
  obtain ⟨xs, hxs, rfl⟩ := Option.map_eq_some_iff.mp ho₁
  obtain ⟨zs, hzs, rfl⟩ := Option.map_eq_some_iff.mp ho'
  have hxne : xs ≠ [] := by
    rintro rfl
    exact hne (List.length_eq_zero_iff.mp (length_formulas? hxs).symm)
  refine ⟨o.select (zs.map (composedOver xs)) u, ?_, ?_, fun t' ht' => ?_⟩
  · rw [Plan.opened?_projection, ho, Option.bind_some, Opened.formulas?_substitute hxs ht hzs]
    rfl
  · rw [Opened.exported_select, Opened.exported_select, List.map_map]
    rfl
  · exact Opened.run_select_select (shape_formulas? hp hxs).1 (varying_of_columns hp hes hxs) hxne
      (Opened.isWithin_of_select hxs ht hzs) ht'

/-- What two projections collect one collects. -/
theorem collect_collapsed (hd : d.context = .here settings .standard)
    (hes : ∀ e ∈ es, e.isPlain = true ∧ e.columns ≠ [])
    (hfs : ∀ f ∈ fs, f.columns ≠ []) (hne : fs ≠ [])
    (hg : d.project es = .ok g) (hh : g.project fs = .ok h) :
    ∃ k, d.project (fs.map (Expr.substitute es)) = .ok k ∧ h.schema = k.schema ∧
      ∀ files bs, (h.collect files).outcome = .ok bs → (k.collect files).outcome = .ok bs := by
  obtain ⟨s, hs, -⟩ := Outcome.bind_eq_ok.mp hg
  obtain ⟨t, ht, hgc, hgp⟩ := project_ok hs hg
  obtain ⟨u, hu, hhc, hhp⟩ := project_ok (f := g) (s := t) (by rw [schema, hgp]; rfl) hh
  rw [Expr.expandWildcards_eq fun e he => Expr.isWildcard_of_columns (hes e he).2] at ht hgp
  rw [Expr.expandWildcards_eq fun f hf => Expr.isWildcard_of_columns (hfs f hf)] at hu hhp
  have hsub := Expr.fields_substituteAll ht hu
  rw [Expr.substituteAll_eq_map] at hsub
  have hesne : es ≠ [] := by
    rintro rfl
    cases ht
    exact Expr.fields_nil_ne_ok hne hfs hu
  let k : Frame := ⟨.projection (fs.map (Expr.substitute es)) d.plan u, d.context⟩
  have hk : k.context = .here settings .standard := hd
  refine ⟨k, project_of_fields hs hsub, by rw [schema, hhp]; rfl, fun files bs hb => ?_⟩
  obtain ⟨size, hsize, hb⟩ := (collect_eq_ok (hhc.trans (hgc.trans hd))).mp hb
  rw [hhp, hgp] at hb
  refine (collect_eq_ok hk).mpr ⟨size, hsize, ?_⟩
  exact answer_collapsed (fun e he => (hes e he).1) (fun e he => (hes e he).2) hesne
    (Expr.length_fields ht) hb

def squares : Frame where
  plan := .projection [.binary (.column 0) "*" (.column 0), .column 0] threeRows.plan
    [⟨"n * n", .int64, true⟩, ⟨"n", .int64, true⟩]
  context := threeRows.context

def excesses : Frame where
  plan := .projection [.binary (.column 0) "-" (.column 1), .column 1] squares.plan
    [⟨"n * n - n", .int64, true⟩, ⟨"n", .int64, true⟩]
  context := threeRows.context

theorem collect_collapsed_squares :
    threeRows.project [.binary (.column 0) "*" (.column 0), .column 0] = .ok squares ∧
      squares.project [.binary (.column 0) "-" (.column 1), .column 1] = .ok excesses ∧
      ∃ k bs, threeRows.project [.binary (.binary (.column 0) "*" (.column 0)) "-" (.column 0),
        .column 0] = .ok k ∧
        excesses.schema = k.schema ∧ (excesses.collect []).outcome = .ok bs ∧
        (k.collect []).outcome = .ok bs ∧
        Batch.allTuples bs = [[.int 0, .int 1], [.int 2, .int 2], [.int 6, .int 3]] := by
  have hes : ∀ e ∈ [Expr.binary (.column 0) "*" (.column 0), .column 0],
      e.isPlain = true ∧ e.columns ≠ [] := by decide
  have hfs : ∀ f ∈ [Expr.binary (.column 0) "-" (.column 1), .column 1], f.columns ≠ [] := by
    decide
  have hg : threeRows.project [.binary (.column 0) "*" (.column 0), .column 0] = .ok squares := rfl
  have hh : squares.project [.binary (.column 0) "-" (.column 1), .column 1] = .ok excesses := rfl
  have hb : (excesses.collect []).outcome =
      .ok [⟨[⟨"n * n - n", .int64, true⟩, ⟨"n", .int64, true⟩], 3,
        [[.int 0, .int 2, .int 6], [.int 1, .int 2, .int 3]], rfl, by decide⟩] := rfl
  obtain ⟨k, hk, hschema, hcollect⟩ :=
    collect_collapsed rfl hes hfs (List.cons_ne_nil _ _) hg hh
  exact ⟨hg, hh, k, _, hk, hschema, hb, hcollect _ _ hb, rfl⟩

end Frame
end LazyQuery
