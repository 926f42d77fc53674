import LazyQuery.Proofs.Engine.Copying
import LazyQuery.Proofs.Frame.Collapsing
import LazyQuery.Proofs.Frame.Grouping

/-! The argument of an aggregate as an expression, and as a column that it is projected to first.
An argument that gets to a column comes to the same both ways. One that does not is a single
value as an expression, over which the aggregate is taken once, and as many values as there are
rows as a column. -/
namespace LazyQuery
open Engine

namespace Expr
variable {n : Nat} {e : Expr}

def beside (n : Nat) (e : Expr) : List Expr := everyColumn n ++ [e]

theorem length_beside (n : Nat) (e : Expr) : (beside n e).length = n + 1 := by
  rw [beside, List.length_append, length_everyColumn, List.length_singleton]

theorem getElem?_beside {k : Nat} (hk : k < n) : (beside n e)[k]? = some (.column k) := by
  rw [beside, List.getElem?_append_left (by rwa [length_everyColumn]), getElem?_everyColumn hk]

theorem getElem?_beside_last : (beside n e)[n]? = some e := by
  simp [beside, length_everyColumn]

theorem isWildcard_of_bound (h : Bound n e.postorder) : e.isWildcard = false := by
  cases e with
  | wildcard => exact absurd rfl (h _ (List.mem_singleton.mpr rfl)).1
  | _ => rfl

theorem expandWildcards_beside (h : e.isWildcard = false) :
    expandWildcards n [.wildcard, e] = beside n e := by
  have hw : Expr.wildcard.isWildcard = true := rfl
  simp [expandWildcards, beside, hw, h]

theorem isPlain_beside (h : e.isPlain = true) : ∀ d ∈ beside n e, d.isPlain = true := by
  intro d hd
  rcases List.mem_append.mp hd with hd | hd
  · obtain ⟨i, -, rfl⟩ := List.mem_map.mp hd
    rfl
  · obtain rfl := List.mem_singleton.mp hd
    exact h

theorem columns_beside (h : e.columns ≠ []) : ∀ d ∈ beside n e, d.columns ≠ [] := by
  intro d hd
  rcases List.mem_append.mp hd with hd | hd
  · obtain ⟨i, -, rfl⟩ := List.mem_map.mp hd
    exact List.cons_ne_nil _ _
  · obtain rfl := List.mem_singleton.mp hd
    exact h

theorem position?_beside {i : Int} (h : 0 ≤ i ∧ i < n) :
    Schema.position? (beside n e).length i = some i.toNat := by
  rw [length_beside, Schema.position?, if_pos h.1, if_pos (by omega)]

theorem position?_last : Schema.position? (beside n e).length n = some n := by
  rw [length_beside, Schema.position?, if_pos (by omega), if_pos (by omega), Int.toNat_natCast]

theorem substitute_last : (Expr.column n).substitute (beside n e) = e :=
  substitute_column position?_last getElem?_beside_last

mutual
theorem substitute_beside {f : Expr} (h : Bound n f.postorder) : f.substitute (beside n e) = f := by
  cases f with
  | column i =>
    have hi := (h _ (List.mem_singleton.mpr rfl)).2 i rfl
    rw [substitute_column (position?_beside hi) (getElem?_beside (by omega)),
      Int.toNat_of_nonneg hi.1]
  | literal | wildcard | bare => rfl
  | binary l op r =>
    rw [postorder, bound_append, bound_append] at h
    rw [substitute, substitute_beside h.1.1, substitute_beside h.1.2]
  | aggregate name args returns =>
    rw [postorder, bound_append] at h
    rw [substitute, substituteAll_beside h.1]
  | not e | isNull e | isNotNull e | cast e _ | «alias» e _ =>
    rw [postorder, bound_append] at h
    rw [substitute, substitute_beside h.1]

theorem substituteAll_beside {fs : List Expr} (h : Bound n (postorderAll fs)) :
    substituteAll (beside n e) fs = fs := by
  cases fs with
  | nil => rfl
  | cons f fs =>
    rw [postorderAll, bound_append] at h
    rw [substituteAll, substitute_beside h.1, substituteAll_beside h.2]
end

theorem map_substitute_beside {fs : List Expr} (h : ∀ f ∈ fs, Bound n f.postorder) :
    fs.map (substitute (beside n e)) = fs := by
  rw [← substituteAll_eq_map, substituteAll_beside (bound_postorderAll_iff.mpr h)]

theorem substitute_call {name : String} {returns : DataType} :
    (aggregate name [.column n] returns).substitute (beside n e) = .aggregate name [e] returns := by
  rw [substitute, substituteAll, substitute_last, substituteAll]

theorem fields_aggregate {s u : Schema} {name : String} {args : List Expr} {returns : DataType}
    (h : fields s [.aggregate name args returns] = .ok u) : u = [⟨name, returns, true⟩] := by
  obtain ⟨field, rest, hf, hrest, rfl⟩ :=
    List.forall₂_cons_left_iff.mp (fields_eq_ok_iff.mp h)
  cases hrest
  obtain ⟨-, -, hf⟩ := Outcome.bind_eq_ok.mp (field_eq_ok.mp hf).2
  cases hf
  rfl

end Expr

namespace Engine

theorem exists_of_aggregate {layout : Schema} {h : Header} {name : String} {e : Expr}
    {returns : DataType}
    {zs : List (Formula × ColumnType)}
    (hz : formulas? layout h [.aggregate name [e] returns] = some zs) :
    ∃ r f s t c, Reduction.ofName? name = some r ∧ Denotes (columnAt? layout h) e f s ∧
      zs = [((Formula.reduce r s f).coerced t c, c)] := by
  obtain ⟨⟨w, c⟩, rest, hd, hrest, rfl⟩ :=
    List.forall₂_cons_left_iff.mp (formulas?_eq_some.mp hz)
  cases hrest
  have hd : Denotes (columnAt? layout h) (.aggregate name [e] returns) w c := hd
  cases hd with
  | aggregate hr he _ _ _ => exact ⟨_, _, _, _, _, hr, he, rfl⟩

theorem exists_value_of_aggregate {layout : Schema} {h : Header} {name : String} {e : Expr}
    {returns : DataType} {zs : List (Formula × ColumnType)} (ha : e.reached = [])
    (hz : formulas? layout h [.aggregate name [e] returns] = some zs) :
    ∃ w c v, zs = [(w, c)] ∧ w.isScalar = true ∧
      ∀ groups columns x, w.eval groups columns = .ok x → x = .one v := by
  obtain ⟨r, f, a, b, c, -, hden, rfl⟩ := exists_of_aggregate hz
  have hw : f.isWithin 0 = true := by
    refine hden.isWithin fun i hi => ?_
    rw [ha] at hi
    cases hi
  have hwithin : ((Formula.reduce r a f).coerced b c).isWithin 0 = true :=
    (Formula.isWithin_coerced ..).trans hw
  obtain ⟨v, hv⟩ := exists_value hwithin
  exact ⟨_, c, v, rfl, by simp [isScalar_coerced, Formula.isScalar], hv⟩

end Engine

namespace Opened
variable {o : Opened} {g : List Expr} {xs ks zs : List (Formula × ColumnType)} {s u : Schema}

/-- The groups of an input by keys, or the aggregates of all of it where there are no keys. -/
def aggregated (o : Opened) (g : List Expr) (ks zs : List (Formula × ColumnType))
    (u : Schema) : Opened :=
  if g = [] then o.select zs u else o.group ks zs u

theorem exported_aggregated (hg : ks.length = g.length) (hz : ∀ z ∈ zs, z.1.isScalar = true) :
    (o.aggregated g ks zs u).header.map (·.2.exported) = ks.map (·.2.exported) ++
      zs.map (·.2.exported) := by
  unfold aggregated
  split
  · rename_i hnil
    subst hnil
    obtain rfl := List.length_eq_zero_iff.mp hg
    exact exported_select o zs u
  · exact exported_group hz

/-- Aggregates of a selection whose formulas differ by row are aggregates of the table that was
selected from. -/
theorem run_aggregated {t : Table} (hr : ∀ x ∈ xs, x.1.isRowwise = true)
    (hs : ∀ x ∈ xs, x.1.isScalar = false) (hne : xs ≠ [])
    (hk : ∀ k ∈ ks, k.1.isWithin xs.length = true)
    (hz : ∀ z ∈ zs, z.1.isWithin xs.length = true)
    (h : ((o.select xs s).aggregated g ks zs u).run [] none = some t) :
    (o.aggregated g (ks.map (composedOver xs)) (zs.map (composedOver xs)) u).run [] none =
      some t := by
  unfold aggregated at h ⊢
  split
  · rename_i hg
    rw [if_pos hg] at h
    exact run_select_select hr hs hne hz h
  · rename_i hg
    rw [if_neg hg] at h
    exact run_select_groups hr hs hne hk hz h

section copies
variable {t : Table} {x : Formula × ColumnType} {n : Nat} {r : Reduction} {a b c : ColumnType}

theorem run_aggregated_copies (hr : ∀ x ∈ xs, x.1.isRowwise = true) (hn : n ≠ 0)
    (hs : ∀ k < n, ∀ x, xs[k]? = some x → x.1.isScalar = false) (hx : xs[n]? = some x)
    (hw : x.1.isWithin 0 = true) (hk : ∀ k ∈ ks, k.1.isWithin n = true)
    (hcopies : ∀ t, o.run [] none = some t → r.IgnoresCopies t.rows)
    (h : ((o.select xs s).aggregated g ks [((Formula.reduce r a (.column n)).coerced b c, c)] u).run
      [] none = some t) :
    (o.aggregated g (ks.map (composedOver xs)) [((Formula.reduce r a x.1).coerced b c, c)] u).run []
      none = some t := by
  have hlt : n < xs.length := (List.getElem?_eq_some_iff.mp hx).1
  have hfirst : xs[0]? = some xs[0] := List.getElem?_eq_getElem (by omega)
  have hvaries : ∃ x ∈ xs, x.1.isScalar = false :=
    ⟨xs[0], List.mem_of_getElem? hfirst, hs 0 (Nat.pos_of_ne_zero hn) _ hfirst⟩
  have hrx := hr x (List.mem_of_getElem? hx)
  unfold aggregated at h ⊢
  split
  · rename_i hg
    rw [if_pos hg] at h
    obtain ⟨t', vs, ht', hvs, rfl⟩ := run_select_eq_some.mp h
    obtain ⟨t₀, ht₀, hshows⟩ := shows_of_select hvaries ht'
    obtain ⟨v, rest, hv, hrest, rfl⟩ :=
      List.forall₂_cons_left_iff.mp (Outcome.mapM_eq_ok.mp hvs)
    cases hrest
    have hv := eval_reduce_copies hshows hx hrx hw (hcopies t₀ ht₀) hv
    refine run_select_eq_some.mpr ⟨t₀, [v], ht₀, Outcome.mapM_eq_ok.mpr (.cons hv .nil), ?_⟩
    rw [hshows.rows]
  · rename_i hg
    rw [if_neg hg] at h
    obtain ⟨t', vs, keys, found, ht', hvs, hkeys, hfound, rfl⟩ := run_group_eq_some.mp h
    obtain ⟨t₀, ht₀, hshows⟩ := shows_of_select hvaries ht'
    obtain ⟨v, rest, hv, hrest, rfl⟩ :=
      List.forall₂_cons_left_iff.mp (Outcome.mapM_eq_ok.mp hfound)
    cases hrest
    rw [hshows.rows] at hkeys hv
    have hgroups := fun g hg => ignoresCopies_of_groupsOf hkeys (hcopies t₀ ht₀) (g := g) hg
    obtain ⟨v', hv', hat⟩ :=
      eval_reduce_copies_grouped hshows hx hrx hw (length_owner hkeys) hgroups hv
    refine run_group_eq_some.mpr ⟨t₀, vs, keys, [v'], ht₀, hshows.mapM_eval hr hs hk hvs,
      hkeys, Outcome.mapM_eq_ok.mpr (.cons hv' .nil), ?_⟩
    rw [Table.grouped, Table.grouped, hshows.rows, List.length_map, List.map_singleton,
      List.map_singleton, hat]

end copies

theorem columns_aggregated {t : Table} {w : Formula} {c : ColumnType} {v : Deferred}
    (hk : ks.length = g.length)
    (hv : ∀ groups columns e, w.eval groups columns = .ok e → e = .one v)
    (h : (o.aggregated g ks [(w, c)] u).run [] none = some t) :
    ∃ front, front.length = g.length ∧ t.columns = front ++ [List.replicate t.rows v] ∧
    (g = [] → t.rows = 1) := by
  unfold aggregated at h
  split at h
  · rename_i hg
    obtain ⟨t₀, vs, -, hvs, rfl⟩ := run_select_eq_some.mp h
    obtain ⟨e, rest, he, hrest, rfl⟩ :=
      List.forall₂_cons_left_iff.mp (Outcome.mapM_eq_ok.mp hvs)
    cases hrest
    cases hv _ _ _ he
    exact ⟨[], by simp [hg], rfl, fun _ => rfl⟩
  · rename_i hg
    obtain ⟨t₀, vs, keys, found, -, -, -, hfound, rfl⟩ := run_group_eq_some.mp h
    obtain ⟨e, rest, he, hrest, rfl⟩ :=
      List.forall₂_cons_left_iff.mp (Outcome.mapM_eq_ok.mp hfound)
    cases hrest
    cases hv _ _ _ he
    refine ⟨(columnsOf ks.length (distinctKeys keys)).map fun c => c.map Except.ok, ?_, rfl,
      fun h => absurd h hg⟩
    rw [List.length_map, columnsOf, List.length_map, List.length_range, hk]

end Opened

section answers
variable {files : Files} {p : Plan} {o : Opened} {name : String} {returns : DataType} {e : Expr}
    {g : List Expr}
  {t u : Schema} {n : Nat} {xs ks : List (Formula × ColumnType)}

/-- What comes of an expression beside columns is without aggregates, and differs by row where it
has a column. -/
theorem shape_beside (he : e.isPlain = true)
    (hx : formulas? o.layout o.header (Expr.beside n e) = some xs) :
    (∀ x ∈ xs, x.1.isRowwise = true) ∧
    (∀ k < n, ∀ x, xs[k]? = some x → x.1.isScalar = false) ∧
      ∃ x, xs[n]? = some x ∧ Denotes (columnAt? o.layout o.header) e x.1 x.2 := by
  have hall := formulas?_eq_some.mp hx
  refine ⟨(shape_formulas? (Expr.isPlain_beside he) hx).1, fun k hk x hxk => ?_, ?_⟩
  · obtain ⟨d, hd, hden⟩ := Outcome.exists_of_forall₂_getElem? hall.flip hxk
    cases (Expr.getElem?_beside hk).symm.trans hd
    exact hden.isScalar_eq rfl
  · exact Outcome.exists_of_forall₂_getElem? hall Expr.getElem?_beside_last

theorem isWithin_beside (hg : ∀ d ∈ g, d.isPlain = true ∧ Expr.Bound n d.postorder)
    (hx : formulas? o.layout o.header (Expr.beside n e) = some xs)
    (ht : t.length = (Expr.beside n e).length)
    (hk : formulas? (o.select xs t).layout (o.select xs t).header g = some ks) :
    ∀ k ∈ ks, k.1.isWithin n = true := by
  refine forall_formulas? (fun d hd k hden => hden.isWithin fun i hi j a hj => ?_) hk
  rw [Expr.reached_of_isPlain (hg d hd).1] at hi
  have hin := (Expr.bound_postorder_iff.mp (hg d hd).2).2 i hi
  rw [Schema.inRange, Bool.and_eq_true, decide_eq_true_eq, decide_eq_true_eq] at hin
  obtain ⟨-, -, hpos, -⟩ := Opened.exists_of_columnAt? hx ht hj
  rw [Expr.position?_beside hin] at hpos
  cases hpos
  omega

/-- The types of an aggregate are those of the aggregate in which the formulas of a selection have
been put in. -/
theorem Opened.exported_named {r : Reduction} {φ : Formula} {a b c : ColumnType}
    (hk : ks.length = g.length) :
    ((o.select xs t).aggregated g ks [((Formula.reduce r a φ).coerced b c, c)] u).header.map
      (·.2.exported) = (o.aggregated g (ks.map (composedOver xs))
        ([((Formula.reduce r a φ).coerced b c, c)].map (composedOver xs)) u).header.map
          (·.2.exported) := by
  rw [exported_aggregated hk (by simp [isScalar_coerced, Formula.isScalar]),
    exported_aggregated (by rw [List.length_map, hk]) (by
      simp [composedOver, Formula.composed_coerced, Formula.composed, isScalar_coerced,
        Formula.isScalar]),
    List.map_map]
  rfl

/-- The table of an aggregate of a column that was projected to is that of the aggregate of the
expression, if that has a column, or if the aggregate ignores the copies of a value. -/
theorem Opened.run_named (hn : n ≠ 0) (ht : t.length = (Expr.beside n e).length)
    (he : e.isPlain = true) (hg : ∀ d ∈ g, d.isPlain = true ∧ Expr.Bound n d.postorder)
    (hxs : formulas? o.layout o.header (Expr.beside n e) = some xs)
    (hks : formulas? (o.select xs t).layout (o.select xs t).header g = some ks)
    {r : Reduction} {φ : Formula} {a b c : ColumnType}
    (hφ : Denotes (columnAt? (o.select xs t).layout (o.select xs t).header) (.column n) φ a)
    (hc : e.columns ≠ [] ∨ ∀ t, o.run [] none = some t → r.IgnoresCopies t.rows)
    {tc : Table}
    (h : ((o.select xs t).aggregated g ks [((Formula.reduce r a φ).coerced b c, c)] u).run []
      none = some tc) :
    (o.aggregated g (ks.map (composedOver xs))
      ([((Formula.reduce r a φ).coerced b c, c)].map (composedOver xs)) u).run [] none =
        some tc := by
  obtain ⟨hrow, hvary, x, hx, hden⟩ := shape_beside he hxs
  cases hφ with
  | column hi =>
    obtain ⟨-, -, hpos, hy, -⟩ := exists_of_columnAt? hxs ht hi
    cases Expr.position?_last.symm.trans hpos
    by_cases hcols : e.columns = []
    · have hw : x.1.isWithin 0 = true := by
        refine hden.isWithin fun i hi => ?_
        rw [Expr.reached_of_isPlain he, hcols] at hi
        cases hi
      have hvalue : composedOver xs ((Formula.reduce r a (.column n)).coerced b c, c) =
          ((Formula.reduce r a x.1).coerced b c, c) := by
        rw [composedOver, Formula.composed_coerced, Formula.composed, Formula.composed,
          List.getD_eq_getElem?_getD, List.getElem?_map, hx]
        rfl
      rw [List.map_singleton, hvalue]
      exact run_aggregated_copies hrow hn hvary hx hw (isWithin_beside hg hxs ht hks)
        (hc.resolve_left (not_not.mpr hcols)) h
    · have hlt : n < xs.length := (List.getElem?_eq_some_iff.mp hx).1
      have hz : ((Formula.reduce r a (.column n)).coerced b c).isWithin xs.length = true :=
        (Formula.isWithin_coerced ..).trans (decide_eq_true hlt)
      exact run_aggregated hrow
        (varying_of_columns (Expr.isPlain_beside he) (Expr.columns_beside hcols) hxs)
        (List.ne_nil_of_mem (List.mem_of_getElem? hx)) (isWithin_of_select hxs ht hks)
        (List.forall_mem_singleton.mpr hz) h

/-- The batches of an aggregate of a column that was projected to are those of the aggregate of the
expression, if that has a column, or if the aggregate ignores the copies of a value. -/
theorem answer_named (hn : n ≠ 0) (ht : t.length = n + 1) (he : e.isPlain = true)
    (hg : ∀ d ∈ g, d.isPlain = true ∧ Expr.Bound n d.postorder)
    (hc : e.columns ≠ [] ∨ ∀ o t r, p.opened? files = some o → o.run [] none = some t →
      Reduction.ofName? name = some r → r.IgnoresCopies t.rows) {size : Int} {cs : List Batch}
    (h : answer files (.aggregate (.projection (Expr.beside n e) p t) g
      [.aggregate name [.column n] returns] u) size = .ok cs) :
    answer files (.aggregate p g [.aggregate name [e] returns] u) size = .ok cs := by
  have hschema :
      (Plan.aggregate (.projection (Expr.beside n e) p t) g [.aggregate name [.column n] returns]
      u).schema = (Plan.aggregate p g [.aggregate name [e] returns] u).schema := rfl
  refine answer_of_opened hschema (fun o' ho' => ?_) h
  rw [Plan.opened?_aggregate, Plan.opened?_projection] at ho'
  obtain ⟨o₁, ho₁, ho'⟩ := Option.bind_eq_some_iff.mp ho'
  obtain ⟨o, ho, ho₁⟩ := Option.bind_eq_some_iff.mp ho₁
  obtain ⟨xs, hxs, rfl⟩ := Option.map_eq_some_iff.mp ho₁
  obtain ⟨ks, hks, ho'⟩ := Option.bind_eq_some_iff.mp ho'
  obtain ⟨zs, hzs, rfl⟩ := Option.map_eq_some_iff.mp ho'
  have ht : t.length = (Expr.beside n e).length := ht.trans (Expr.length_beside n e).symm
  have hks' := Opened.formulas?_substitute hxs ht hks
  have hzs' := Opened.formulas?_substitute hxs ht hzs
  rw [Expr.map_substitute_beside fun d hd => (hg d hd).2] at hks'
  rw [List.map_singleton, Expr.substitute_call] at hzs'
  obtain ⟨r, φ, a, b, c, hr, hφ, rfl⟩ := exists_of_aggregate hzs
  refine ⟨_, ?_, Opened.exported_named (length_formulas? hks), fun tc htc => ?_⟩
  · rw [Plan.opened?_aggregate, ho, Option.bind_some, hks', Option.bind_some, hzs']
    rfl
  · exact Opened.run_named hn ht he hg hxs hks hφ (hc.imp_right fun h t ht => h o t r ho ht hr)
      htc

/-- An aggregate that gets to no column has one value, in every group of every input. -/
theorem exists_single (files : Files) (ha : e.reached = []) :
    ∃ c : Cell, ∀ (p : Plan) (g : List Expr) (s : Schema) (size : Int) (bs : List Batch),
      s.length = g.length →
      answer files (.aggregate p g [.aggregate name [e] returns] (s ++ [⟨name, returns, true⟩]))
        size = .ok bs →
      (∀ row ∈ Batch.allTuples bs, row.getLast? = some c) ∧
      (g = [] → Batch.allTuples bs = [[c]]) := by
  have hreached : (Expr.aggregate name [e] returns).reached = [] := ha
  have hsame : ∀ layout h, formulas? layout h [.aggregate name [e] returns] =
      formulas? [] [] [.aggregate name [e] returns] :=
      fun layout h => formulas?_congr (by simp [hreached])
  cases hz : formulas? [] [] [.aggregate name [e] returns] with
  | none =>
    refine ⟨.null, fun p g s size bs _ h => ?_⟩
    obtain ⟨o', -, -, -, ho', -⟩ := answer_eq_ok.mp h
    rw [Plan.opened?_aggregate] at ho'
    obtain ⟨o, -, ho'⟩ := Option.bind_eq_some_iff.mp ho'
    obtain ⟨ks, -, ho'⟩ := Option.bind_eq_some_iff.mp ho'
    rw [hsame, hz] at ho'
    cases ho'
  | some zs =>
    obtain ⟨w, c, v, rfl, hscalar, hv⟩ := exists_value_of_aggregate ha hz
    refine ⟨Export.leave c.exported returns (cellOf v), fun p g s size bs hs h => ?_⟩
    obtain ⟨o', s', t, cells, ho', hs', ht, hcells, hb⟩ := answer_eq_ok.mp h
    cases hs'
    have heven := Plan.even_opened ho' ht
    rw [Plan.opened?_aggregate] at ho'
    obtain ⟨o, -, ho'⟩ := Option.bind_eq_some_iff.mp ho'
    obtain ⟨ks, hks, ho'⟩ := Option.bind_eq_some_iff.mp ho'
    rw [hsame, hz, Option.map_some] at ho'
    cases ho'
    have hlen := length_formulas? hks
    obtain ⟨front, hfront, hcolumns, hone⟩ := Opened.columns_aggregated hlen hv ht
    have hheader : (o.aggregated g ks [(w, c)] (s ++ [⟨name, returns, true⟩])).header.map
        (·.2.exported) = ks.map (·.2.exported) ++ [c.exported] :=
      Opened.exported_aggregated hlen (List.forall_mem_singleton.mpr hscalar)
    have hb : Export.batches (s ++ [⟨name, returns, true⟩])
        ((ks.map (·.2.exported) ++ [c.exported]).zip (cells.map fun c => [c])) size = .ok bs :=
        hheader ▸ hb
    obtain ⟨start, hstart, htuples⟩ :=
      allTuples_copies heven hcolumns hcells (hs.trans hfront.symm)
      (by rw [List.length_map, hlen, hfront]) hb
    rw [htuples]
    refine ⟨fun row hrow => ?_, ?_⟩
    · obtain ⟨i, -, rfl⟩ := List.mem_map.mp hrow
      exact List.getLast?_concat
    · rintro rfl
      rw [hone rfl, List.range_one, List.map_singleton, hstart (List.length_eq_zero_iff.mp hs)]
      rfl

end answers

namespace Frame
variable {files : Files} {settings : Assignments} {f p q r : Frame} {s : Schema} {g : List Expr}
    {e : Expr}
  {name : String} {returns : DataType} {bs cs : List Batch}

/-- The plans of an aggregate of an expression and of an aggregate of the column that it is
projected to. They have one schema. -/
theorem plans_named (hs : f.schema = .ok s)
    (hq : f.aggregate g [.aggregate name [e] returns] = .ok q)
    (hp : f.project [.wildcard, e] = .ok p)
    (hr : p.aggregate g [.aggregate name [.column s.length] returns] = .ok r) :
    (∀ d ∈ g, Expr.Bound s.length d.postorder) ∧ q.context = f.context ∧
    r.context = f.context ∧
      ∃ t gs, t.length = s.length + 1 ∧ gs.length = g.length ∧
        q.plan = .aggregate f.plan g [.aggregate name [e] returns]
        (gs ++ [⟨name, returns, true⟩]) ∧
        r.plan = .aggregate (.projection (Expr.beside s.length e) f.plan t) g
          [.aggregate name [.column s.length] returns] (gs ++ [⟨name, returns, true⟩]) := by
  obtain ⟨fs, hfs, hqc, hqp⟩ := aggregate_ok hs hq
  have hbound := Expr.bound_postorderAll_iff.mp (Expr.fields_eq_ok.mp hfs).1
  rw [List.forall_mem_append, List.forall_mem_singleton, Expr.postorder, Expr.bound_append,
    Expr.bound_postorderAll_iff, List.forall_mem_singleton] at hbound
  obtain ⟨hg, he, -⟩ := hbound
  obtain ⟨t, ht, hpc, hpp⟩ := project_ok hs hp
  rw [Expr.expandWildcards_beside (Expr.isWildcard_of_bound he)] at ht hpp
  have hpt : p.schema = .ok t := by
    rw [schema, hpp]
    rfl
  obtain ⟨u, hu, hrc, hrp⟩ := aggregate_ok hpt hr
  have hsub := Expr.fields_substituteAll ht hu
  rw [Expr.substituteAll_eq_map, List.map_append, Expr.map_substitute_beside hg, List.map_singleton,
    Expr.substitute_call, hfs] at hsub
  cases hsub
  obtain ⟨gs, as, hgs, has, rfl⟩ := Expr.fields_append hfs
  cases Expr.fields_aggregate has
  refine ⟨hg, hqc, hrc.trans hpc, t, gs, ?_, Expr.length_fields hgs, hqp, ?_⟩
  · rw [Expr.length_fields ht, Expr.length_beside]
  · rw [hrp, hpp]

theorem totalRows_opened (hf : f.context = .here settings .standard) (hs : f.schema = .ok s)
    (hne : s ≠ [])
    (hb : (f.collect files).outcome = .ok bs) {o : Opened} {t : Table}
    (ho : f.plan.opened? files = some o)
    (ht : o.run [] none = some t) : Batch.totalRows bs = t.rows := by
  obtain ⟨size, hb⟩ := answer_of_collect hf hb
  obtain ⟨o', s', t', cells, ho', hs', ht', hcells, hb⟩ := answer_eq_ok.mp hb
  cases ho.symm.trans ho'
  cases ht.symm.trans ht'
  cases Except.ok.inj (hs.symm.trans hs')
  exact totalRows_batches hne (Plan.even_opened ho ht) hcells hb

/-- An aggregate of an argument that has a column is the aggregate of the column made of that
argument, batch by batch. An argument without a column is one value, and so is its aggregate: the
last column of the answer holds it in every group, and every other input has the same one. It is the
aggregate of the column made of the argument where the input has one row, and for the minimum and
the maximum where it has any; the count of a literal beside three rows is not. -/
theorem aggregate_named (hf : f.context = .here settings .standard) (hs : f.schema = .ok s)
    (hne : s ≠ []) (hg : ∀ d ∈ g, d.isPlain = true) (he : e.isPlain = true)
    (hq : f.aggregate g [.aggregate name [e] returns] = .ok q)
    (hp : f.project [.wildcard, e] = .ok p)
    (hr : p.aggregate g [.aggregate name [.column s.length] returns] = .ok r)
    (hb : (q.collect files).outcome = .ok bs) (hc : (r.collect files).outcome = .ok cs) :
    (e.columns ≠ [] → bs = cs) ∧
      (e.columns = [] → ∀ ds, (f.collect files).outcome = .ok ds →
        (Batch.totalRows ds = 1 ∨
          (Reduction.ofName? name = some .min ∨ Reduction.ofName? name = some .max) ∧
          0 < Batch.totalRows ds) → bs = cs) ∧
      (e.columns = [] → ∃ c : Cell, (∀ row ∈ Batch.allTuples bs, row.getLast? = some c) ∧
        ∀ (settings : Assignments) (u v : Frame) (ds : List Batch),
          u.context = .here settings .standard →
          u.aggregate [] [.aggregate name [e] returns] = .ok v →
          (v.collect files).outcome = .ok ds →
            Batch.allTuples ds = [[c]]) := by
  obtain ⟨hbound, hqc, hrc, t, gs, ht, hgs, hqp, hrp⟩ := plans_named hs hq hp hr
  have hn : s.length ≠ 0 := fun h => hne (List.length_eq_zero_iff.mp h)
  have hqf := hqc.trans hf
  have hrf := hrc.trans hf
  have hsame : (e.columns ≠ [] ∨ ∀ o t r, f.plan.opened? files = some o →
      o.run [] none = some t →
      Reduction.ofName? name = some r → r.IgnoresCopies t.rows) → bs = cs := by
    intro h
    obtain ⟨size, hsize, hc⟩ := (collect_eq_ok hrf).mp hc
    rw [hrp] at hc
    have hq : (q.collect files).outcome = .ok cs :=
      (collect_eq_ok hqf).mpr ⟨size, hsize,
        hqp ▸ answer_named hn ht he (fun d hd => ⟨hg d hd, hbound d hd⟩) h hc⟩
    exact Except.ok.inj (hb.symm.trans hq)
  refine ⟨fun hcols => hsame (.inl hcols), fun _ ds hds hcopies => hsame (.inr ?_),
    fun hcols => ?_⟩
  · intro o t r ho ht hr
    rw [← totalRows_opened hf hs hne hds ho ht]
    refine hcopies.imp_right fun h => ⟨h.1.imp (fun hmin => ?_) fun hmax => ?_, h.2⟩
    · exact Option.some.inj (hr.symm.trans hmin)
    · exact Option.some.inj (hr.symm.trans hmax)
  · obtain ⟨c, hall⟩ := exists_single files ((Expr.reached_of_isPlain he).trans hcols)
    obtain ⟨size, hb⟩ := answer_of_collect hqf hb
    refine ⟨c, (hall f.plan g gs size bs hgs (hqp ▸ hb)).1, fun settings u v ds hu hv hds =>
      ?_⟩
    obtain ⟨su, hsu, -⟩ := Outcome.bind_eq_ok.mp hv
    obtain ⟨fs, hfs, hvc, hvp⟩ := aggregate_ok hsu hv
    cases Expr.fields_aggregate hfs
    obtain ⟨size, hds⟩ := answer_of_collect (hvc.trans hu) hds
    exact (hall u.plan [] [] size ds rfl (hvp ▸ hds)).2 rfl

/-- The number 1 beside every row. -/
def one : Expr := .literal (.int 1) .int64

/-- There is one 1 as an expression and three of them as a column of three rows. -/
theorem aggregate_named_count :
    ∃ q p r v bs cs ds, threeRows.aggregate [] [.count one] = .ok q ∧
      threeRows.project [.wildcard, one] = .ok p ∧
      p.aggregate [] [.count (.column 1)] = .ok r ∧ p.aggregate [] [.count one] = .ok v ∧
      (q.collect []).outcome = .ok bs ∧ (r.collect []).outcome = .ok cs ∧
      (v.collect []).outcome = .ok ds ∧
      Batch.allTuples bs = [[.float 1.0]] ∧ Batch.allTuples cs = [[.float 3.0]] ∧
      Batch.allTuples ds = [[.float 1.0]] := by
  let counted (p : Plan) (e : Expr) : Frame :=
    ⟨.aggregate p [] [.count e] [⟨"COUNT", .double, true⟩], threeRows.context⟩
  let p : Frame :=
    ⟨.projection [.column 0, one] threeRows.plan [⟨"n", .int64, true⟩,
      ⟨"1", .int64, true⟩], threeRows.context⟩
  have hp : threeRows.project [.wildcard, one] = .ok p := rfl
  have hq : threeRows.aggregate [] [.count one] = .ok (counted threeRows.plan one) := rfl
  have hr : p.aggregate [] [.count (.column 1)] = .ok (counted p.plan (.column 1)) := rfl
  have hv : p.aggregate [] [.count one] = .ok (counted p.plan one) := rfl
  have hb : ((counted threeRows.plan one).collect []).outcome.toOption.map Batch.allTuples =
      some [[.float 1.0]] := by decide +kernel
  have hc : ((counted p.plan (.column 1)).collect []).outcome.toOption.map Batch.allTuples =
      some [[.float 3.0]] := by decide +kernel
  have hd : ((counted p.plan one).collect []).outcome.toOption.isSome = true := by decide +kernel
  obtain ⟨bs, hbs, hbrows⟩ := Outcome.map_toOption_eq_some.mp hb
  obtain ⟨cs, hcs, hcrows⟩ := Outcome.map_toOption_eq_some.mp hc
  obtain ⟨ds, hds⟩ := Option.isSome_iff_exists.mp hd
  have hds := Outcome.toOption_eq_some.mp hds
  have hs : threeRows.schema = .ok [⟨"n", .int64, true⟩] := rfl
  have hg : ∀ d ∈ ([] : List Expr), d.isPlain = true := nofun
  obtain ⟨-, -, h⟩ := aggregate_named rfl hs (List.cons_ne_nil _ _) hg rfl hq hp hr hbs hcs
  obtain ⟨c, hlast, hother⟩ := h rfl
  rw [hbrows] at hlast
  cases hlast _ (List.mem_singleton.mpr rfl)
  exact ⟨_, p, _, _, bs, cs, ds, hq, hp, hr, hv, hbs, hcs, hds, hbrows, hcrows,
    hother [] p _ ds rfl hv hds⟩

end Frame
end LazyQuery
