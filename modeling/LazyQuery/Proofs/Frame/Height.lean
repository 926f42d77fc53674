import LazyQuery.Proofs.Engine.Opening
import LazyQuery.Proofs.Frame.Building

/-! How many rows a projection has: those of its input as soon as one of its expressions gets to a
column, and a single row, whatever the input, if none does. -/
namespace LazyQuery
open Engine

/-- A wildcard, or an expression with a column. -/
def Expr.varies (e : Expr) : Bool := e.isWildcard || !e.columns.isEmpty

namespace Expr
variable {n : Nat} {es : List Expr}

theorem isPlain_expandWildcards (hp : ∀ e ∈ es, e.isPlain = true) :
    ∀ e ∈ expandWildcards n es, e.isPlain = true := by
  intro e he
  obtain ⟨d, hd, he⟩ := List.mem_flatMap.mp he
  split at he
  · obtain ⟨i, -, rfl⟩ := List.mem_map.mp he
    rfl
  · obtain rfl := List.mem_singleton.mp he
    exact hp e hd

theorem columns_of_isWildcard {e : Expr} (he : e.isWildcard = true) : e.columns = [] := by
  rw [isWildcard_iff.mp he]
  rfl

theorem all_expandWildcards (hn : n ≠ 0) :
    (expandWildcards n es).all (·.columns.isEmpty) = !es.any varies := by
  induction es with
  | nil => rfl
  | cons e es ih =>
    rw [expandWildcards_cons, List.all_append, ih, List.any_cons, Bool.not_or]
    congr 1
    cases hw : e.isWildcard with
    | false => simp [varies, hw]
    | true =>
      obtain ⟨k, rfl⟩ := Nat.exists_eq_succ_of_ne_zero hn
      simp [varies, hw, everyColumn, List.range_succ, columns]

theorem expandWildcards_ne_nil (hn : n ≠ 0) (hes : es ≠ []) : expandWildcards n es ≠ [] := by
  obtain ⟨e, es, rfl⟩ := List.exists_cons_of_ne_nil hes
  obtain ⟨k, rfl⟩ := Nat.exists_eq_succ_of_ne_zero hn
  cases hw : e.isWildcard <;> simp [expandWildcards, hw, everyColumn, List.range_succ]

theorem length_deriveAll {s fs : Schema} (h : deriveAll s es = .ok fs) : fs.length = es.length := by
  induction es generalizing fs with
  | nil =>
    cases h
    rfl
  | cons e es ih =>
    obtain ⟨f, -, h⟩ := Outcome.bind_eq_ok.mp h
    obtain ⟨gs, hgs, h⟩ := Outcome.bind_eq_ok.mp h
    cases h
    rw [List.length_cons, List.length_cons, ih hgs]

theorem length_fields {s fs : Schema} (h : fields s es = .ok fs) : fs.length = es.length := by
  obtain ⟨-, -, h⟩ := Outcome.bind_eq_ok.mp h
  exact length_deriveAll h

end Expr

/-- A selection without aggregates has one row if no formula differs by row, else
those of its input. -/
theorem Engine.rows_selected {t : Table} (ht : t.Even) {xs : List (Formula × ColumnType)}
    (hr : ∀ x ∈ xs, x.1.isRowwise = true) (hne : xs ≠ []) {es : List Extent}
    (h : (xs.map (·.1)).mapM (Formula.eval none t.columns) = .ok es) :
    (selected t.rows es).rows = if xs.all (·.1.isScalar) then 1 else t.rows := by
  obtain ⟨rows, -, he⟩ := Table.exists_rows ht
  rw [he, mapM_eval_ofRows (by simpa using hr)] at h
  split at h
  · cases h
    have hemp : ((xs.map (·.1)).map (Formula.onRows rows)).isEmpty = false := by
      obtain ⟨x, xs, rfl⟩ := List.exists_cons_of_ne_nil hne
      rfl
    have hone : ((xs.map (·.1)).map (Formula.onRows rows)).all Extent.isOne =
        xs.all (·.1.isScalar) := by
      rw [List.all_map, List.all_map]
      congr 1
      funext x
      exact isOne_onRows rows x.1
    rw [selected, hemp, hone, if_neg Bool.false_ne_true]
  · cases h

namespace Frame
variable {files : Files} {settings : Assignments} {f g : Frame}

theorem collect_eq_ok (hf : f.context = .here settings .standard) {bs : List Batch} :
    (f.collect files).outcome = .ok bs ↔
      ∃ size : Nat, Settings.batchSize ⟨settings, standardCatalog⟩ = .ok size ∧
        answer files f.plan size = .ok bs := by
  rw [collect, hf]
  constructor
  · exact Context.answer_of_here
  · rintro ⟨size, hsize, h⟩
    exact Context.here_of_answer hsize h

theorem answer_of_collect (hf : f.context = .here settings .standard) {bs : List Batch}
    (h : (f.collect files).outcome = .ok bs) : ∃ size : Nat,
      answer files f.plan size = .ok bs := by
  obtain ⟨size, -, h⟩ := (collect_eq_ok hf).mp h
  exact ⟨size, h⟩

/-- A projection of a frame with columns has the frame's rows if one of its expressions is a
wildcard or has a column, and else one row. -/
theorem totalRows_project (hf : f.context = .here settings .standard) {s : Schema}
    (hs : f.schema = .ok s) (hne : s ≠ []) {es : List Expr} (hes : es ≠ [])
    (hp : ∀ e ∈ es, e.isPlain = true) (hg : f.project es = .ok g) {bs cs : List Batch}
    (hb : (f.collect files).outcome = .ok bs) (hc : (g.collect files).outcome = .ok cs) :
    Batch.totalRows cs = if es.any Expr.varies then Batch.totalRows bs else 1 := by
  obtain ⟨fs, hfs, hctx, hplan⟩ := project_ok hs hg
  have hn : s.length ≠ 0 := fun h => hne (List.length_eq_zero_iff.mp h)
  have hx : Expr.expandWildcards s.length es ≠ [] := Expr.expandWildcards_ne_nil hn hes
  obtain ⟨_, hb⟩ := answer_of_collect hf hb
  obtain ⟨_, hc⟩ := answer_of_collect (hctx.trans hf) hc
  obtain ⟨o, s', t, cells, ho, hs', ht, hcells, hb⟩ := answer_eq_ok.mp hb
  obtain ⟨o', fs', t', cells', ho', hfs', ht', hcells', hc⟩ := answer_eq_ok.mp hc
  have hte : t.Even := Plan.even_opened ho ht
  have hte' : t'.Even := Plan.even_opened ho' ht'
  obtain rfl : s = s' := Except.ok.inj (hs.symm.trans hs')
  rw [hplan] at ho' hfs'
  obtain rfl : fs = fs' := Except.ok.inj hfs'
  have hfne : fs ≠ [] := by
    intro h
    have hlen := Expr.length_fields hfs
    rw [h] at hlen
    exact hx (List.length_eq_zero_iff.mp hlen.symm)
  rw [totalRows_batches hne hte hcells hb, totalRows_batches hfne hte' hcells' hc]
  rw [Plan.opened?_projection, ho, Option.bind_some] at ho'
  obtain ⟨xs, hxs, ho'⟩ := Option.map_eq_some_iff.mp ho'
  subst ho'
  obtain ⟨hrow, hscalar⟩ := shape_formulas? (Expr.isPlain_expandWildcards hp) hxs
  obtain ⟨t₀, es', ht₀, hes', rfl⟩ := Opened.run_select_eq_some.mp ht'
  obtain rfl : t = t₀ := Option.some.inj (ht.symm.trans ht₀)
  have hxne : xs ≠ [] := by
    intro h
    have hlen := length_formulas? hxs
    rw [h] at hlen
    exact hx (List.length_eq_zero_iff.mp hlen.symm)
  have hall : xs.all (·.1.isScalar) = !es.any Expr.varies := by
    rw [← Expr.all_expandWildcards hn]
    have hmap := congrArg (List.all · id) hscalar
    simpa [List.all_map, Function.comp_def] using hmap
  rw [rows_selected hte hrow hxne hes', hall]
  cases es.any Expr.varies <;> rfl

def threeRows : Frame where
  plan := .memory [⟨[⟨"n", .int64, true⟩], 3, [[.int 1, .int 2, .int 3]], rfl, by decide⟩]
    [⟨"n", .int64, true⟩]
  context := .here [] .standard

/-- A literal by itself is one row beside three. -/
theorem totalRows_project_literal :
    ∃ g bs cs, threeRows.project [.literal (.int 1) .int64] = .ok g ∧
      (threeRows.collect []).outcome = .ok bs ∧ (g.collect []).outcome = .ok cs ∧
      Batch.totalRows bs = 3 ∧ Batch.totalRows cs = 1 := by
  have hg : threeRows.project [.literal (.int 1) .int64] =
      .ok ⟨.projection [.literal (.int 1) .int64] threeRows.plan [⟨"1", .int64, true⟩],
        threeRows.context⟩ := rfl
  have hb : (threeRows.collect []).outcome =
      .ok [⟨[⟨"n", .int64, true⟩], 3, [[.int 1, .int 2, .int 3]], rfl, by decide⟩] := rfl
  have hc : (Frame.collect [] ⟨.projection [.literal (.int 1) .int64] threeRows.plan
      [⟨"1", .int64, true⟩], threeRows.context⟩).outcome =
      .ok [⟨[⟨"1", .int64, true⟩], 1, [[.int 1]], rfl, by decide⟩] := rfl
  have hp : ∀ e ∈ [Expr.literal (.int 1) .int64], e.isPlain = true := by
    intro e he
    obtain rfl := List.mem_singleton.mp he
    rfl
  have h := totalRows_project rfl rfl (List.cons_ne_nil _ _) (List.cons_ne_nil _ _) hp hg hb hc
  exact ⟨_, _, _, hg, hb, hc, rfl, h⟩

end Frame
end LazyQuery
