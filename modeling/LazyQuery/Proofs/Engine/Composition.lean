import LazyQuery.Proofs.Engine.Groupwise
import LazyQuery.Proofs.Engine.Placing
import LazyQuery.Proofs.Expr.Substitution

/-! Formulas over the columns of a selection. With the formulas of the selection in the place of its
columns they come to formulas over the table that was selected from, with the same values: no column
is lost or made up on the way, whatever names the selection gives and whatever order it has. -/
namespace LazyQuery
open Engine

namespace Engine.Formula

def composed (ys : List Formula) : Formula → Formula
  | .column k => ys.getD k (.column k)
  | .constant c => .constant c
  | .cast s t f => .cast s t (f.composed ys)
  | .combine k l r => .combine k (l.composed ys) (r.composed ys)
  | .negate t f => .negate t (f.composed ys)
  | .isNull f => .isNull (f.composed ys)
  | .isNotNull f => .isNotNull (f.composed ys)
  | .reduce r t f => .reduce r t (f.composed ys)

variable {ys : List Formula} {f : Formula}

theorem composed_coerced (s t : ColumnType) : (f.coerced s t).composed ys =
    (f.composed ys).coerced s t := by
  unfold coerced
  split <;> rfl

theorem isWithin_coerced (s t : ColumnType) (width : Nat) :
    (f.coerced s t).isWithin width = f.isWithin width := by
  unfold coerced
  split <;> rfl

theorem composed_of_isWithin (h : f.isWithin 0 = true) : f.composed ys = f := by
  induction f with
  | column k => cases h
  | constant c => rfl
  | combine k l r ihl ihr =>
    have h := (Bool.and_eq_true _ _).mp h
    rw [composed, ihl h.1, ihr h.2]
  | cast _ _ _ ih => rw [composed, ih h]
  | negate _ _ ih => rw [composed, ih h]
  | isNull _ ih => rw [composed, ih h]
  | isNotNull _ ih => rw [composed, ih h]
  | reduce _ _ _ ih => rw [composed, ih h]

/-- Over the columns of a table whose columns are the values of formulas over another, a formula has
the values that it has over the other with those formulas in the place of its columns. -/
theorem eval_composed {groups : Option Partition} {columns columns' : List (List Deferred)}
    {width : Nat} (hf : f.isWithin width = true)
    (hy : ∀ k < width, ∀ cs, columns'[k]? = some cs →
      ∃ y, ys[k]? = some y ∧ y.eval groups columns = .ok (.rows cs))
    {e : Extent} (he : f.eval groups columns' = .ok e) : (f.composed ys).eval groups columns =
      .ok e := by
  induction f generalizing e with
  | column k =>
    rw [eval] at he
    split at he
    · rename_i cs hk
      cases he
      obtain ⟨y, hky, hy⟩ := hy k (of_decide_eq_true hf) cs hk
      rw [composed, List.getD_eq_getElem?_getD, hky]
      exact hy
    · cases he
  | constant c => exact he
  | combine k l r ihl ihr =>
    have hf := (Bool.and_eq_true _ _).mp hf
    obtain ⟨x, hx, he⟩ := Outcome.bind_eq_ok.mp he
    obtain ⟨y, hy, he⟩ := Outcome.bind_eq_ok.mp he
    rw [composed, eval, ihl hf.1 hx, ihr hf.2 hy]
    exact he
  | cast _ _ _ ih =>
    obtain ⟨x, hx, he⟩ := Outcome.bind_eq_ok.mp he
    rw [composed, eval, ih hf hx]
    exact he
  | negate _ _ ih =>
    obtain ⟨x, hx, he⟩ := Outcome.bind_eq_ok.mp he
    rw [composed, eval, ih hf hx]
    exact he
  | isNull _ ih =>
    obtain ⟨x, hx, he⟩ := Outcome.bind_eq_ok.mp he
    rw [composed, eval, ih hf hx]
    exact he
  | isNotNull _ ih =>
    obtain ⟨x, hx, he⟩ := Outcome.bind_eq_ok.mp he
    rw [composed, eval, ih hf hx]
    exact he
  | reduce _ _ _ ih =>
    obtain ⟨x, hx, he⟩ := Outcome.bind_eq_ok.mp he
    rw [composed, eval, ih hf hx]
    exact he

end Engine.Formula

namespace Engine

theorem isWithin_of_isConstant {u : Term} (hu : u.isConstant = true) {h : Header} {f : Formula}
    {t : ColumnType} (hf : resolve h u = .ok (f, t)) (width : Nat) : f.isWithin width = true := by
  induction u generalizing f t with
  | constant c s =>
    cases hf
    rfl
  | cast u c ih =>
    obtain ⟨⟨g, s⟩, hg, -⟩ := Outcome.bind_eq_ok.mp hf
    obtain ⟨-, hx⟩ := (resolve_cast hg).mp hf
    cases hx
    exact (Formula.isWithin_coerced ..).trans (ih hu hg)
  | _ => cases hu

theorem Denotes.isWithin {find : Int → Option (Nat × ColumnType)} {e : Expr} {f : Formula}
    {t : ColumnType} (hd : Denotes find e f t) {width : Nat}
    (hw : ∀ i ∈ e.reached, ∀ k u, find i = some (k, u) → k < width) : f.isWithin width =
      true := by
  induction hd with
  | column hi => exact decide_eq_true (hw _ (List.mem_singleton.mpr rfl) _ _ hi)
  | @literal v d u f t hu hf =>
    have hterm : term [] (.literal v d) = .ok u := hu
    exact isWithin_of_isConstant (isConstant_of_literal hterm) hf width
  | binary _ _ _ _ ihl ihr =>
    rw [Formula.isWithin, Formula.isWithin_coerced, Formula.isWithin_coerced,
      ihl fun i hi => hw i (List.mem_append.mpr (.inl hi)),
      ihr fun i hi => hw i (List.mem_append.mpr (.inr hi))]
    rfl
  | aggregate _ _ _ _ _ ih => exact (Formula.isWithin_coerced ..).trans (ih hw)
  | cast _ _ _ ih => exact (Formula.isWithin_coerced ..).trans (ih hw)
  | not _ _ ih => exact ih hw
  | isNull _ ih => exact ih hw
  | isNotNull _ ih => exact ih hw
  | «alias» _ ih => exact ih hw

/-- Expressions in the place of columns come to their formulas in the place of the columns. -/
theorem Denotes.substitute {find find' : Int → Option (Nat × ColumnType)} {es : List Expr}
    {ys : List Formula}
    (hfind : ∀ i k u, find' i = some (k, u) → ∃ e y, Schema.position? es.length i = some k ∧
      es[k]? = some e ∧
      ys[k]? = some y ∧ Denotes find e y u)
    {e : Expr} {f : Formula} {t : ColumnType} (hd : Denotes find' e f t) :
    Denotes find (e.substitute es) (f.composed ys) t := by
  induction hd with
  | column hi =>
    obtain ⟨e, y, hk, he, hy, hd⟩ := hfind _ _ _ hi
    rw [Expr.substitute_column hk he, Formula.composed, List.getD_eq_getElem?_getD, hy]
    exact hd
  | @literal v d u f t hu hf =>
    have hterm : term [] (.literal v d) = .ok u := hu
    have hw := isWithin_of_isConstant (isConstant_of_literal hterm) hf 0
    rw [Expr.substitute, Formula.composed_of_isWithin hw]
    exact .literal hu hf
  | aggregate hr _ hc ht hcast ih =>
    rw [Expr.substitute, Expr.substituteAll, Formula.composed_coerced]
    exact .aggregate hr ih hc ht hcast
  | binary _ _ ho hm ihl ihr =>
    rw [Expr.substitute, Formula.composed, Formula.composed_coerced, Formula.composed_coerced]
    exact .binary ihl ihr ho hm
  | not _ hs ih => exact .not ih hs
  | isNull _ ih => exact .isNull ih
  | isNotNull _ ih => exact .isNotNull ih
  | cast _ hc hcast ih =>
    rw [Expr.substitute, Formula.composed_coerced]
    exact .cast ih hc hcast
  | «alias» _ ih => exact .alias ih

def composedOver (xs : List (Formula × ColumnType))
    (z : Formula × ColumnType) : Formula × ColumnType :=
  (z.1.composed (xs.map (·.1)), z.2)

section rowwise
variable {columns : List (List Deferred)}

theorem combine_ungrouped {a b : Extent} (ha : a.scope ≠ .group) (hb : b.scope ≠ .group)
    (p q : Partition) (k : Kernel) : a.combine p k b = a.combine q k b := by
  cases a <;> cases b <;> first | rfl | exact absurd rfl ha | exact absurd rfl hb

theorem scope_ne_group {f : Formula} {e : Extent} (h : f.eval none columns = .ok e) :
    e.scope ≠ .group := by
  rw [scope_eval_none h]
  split <;> exact nofun

theorem eval_rowwise {f : Formula} (hf : f.isRowwise = true) (groups : Option Partition) :
    f.eval groups columns = f.eval none columns := by
  induction f with
  | column => rfl
  | constant => rfl
  | reduce => cases hf
  | combine k l r ihl ihr =>
    have hf := (Bool.and_eq_true _ _).mp hf
    rw [Formula.eval, Formula.eval, ihl hf.1, ihr hf.2]
    cases hl : l.eval none columns with
    | error e => rfl
    | ok a =>
      cases hr : r.eval none columns with
      | error e => rfl
      | ok b =>
        rw [Outcome.ok_bind, Outcome.ok_bind, Outcome.ok_bind, Outcome.ok_bind,
          combine_ungrouped (scope_ne_group hl) (scope_ne_group hr)]
  | cast _ _ _ ih => rw [Formula.eval, Formula.eval, ih hf]
  | negate _ _ ih => rw [Formula.eval, Formula.eval, ih hf]
  | isNull _ ih => rw [Formula.eval, Formula.eval, ih hf]
  | isNotNull _ ih => rw [Formula.eval, Formula.eval, ih hf]

theorem rows_of_eval {f : Formula} (hf : f.isScalar = false) {e : Extent}
    (h : f.eval none columns = .ok e) :
    ∃ cs, e = .rows cs := by
  have hscope := scope_eval_none h
  rw [hf, if_neg Bool.false_ne_true] at hscope
  cases e with
  | rows cs => exact ⟨cs, rfl⟩
  | one | groups => cases hscope

end rowwise

/-- The columns of the first table are the values of formulas at the rows of the second. -/
structure Table.Shows (t' : Table) (xs : List (Formula × ColumnType)) (t : Table) : Prop where
  rows : t'.rows = t.rows
  column : ∀ (k : Nat) (cs : List Deferred), t'.columns[k]? = some cs →
    ∃ (x : Formula × ColumnType) (e : Extent),
      xs[k]? = some x ∧ x.1.eval none t.columns = .ok e ∧ cs = e.atRows t.rows

namespace Table.Shows
variable {t t' : Table} {xs zs : List (Formula × ColumnType)} {width : Nat}
    {groups : Option Partition}

/-- Over the columns that differ by row, and without aggregates in them, a formula has the values
that it has over the other table with their formulas in the place of them. -/
theorem eval (h : t'.Shows xs t) (hr : ∀ x ∈ xs, x.1.isRowwise = true)
    (hs : ∀ k < width, ∀ x, xs[k]? = some x → x.1.isScalar = false) {f : Formula}
    (hf : f.isWithin width = true) {e : Extent} (he : f.eval groups t'.columns = .ok e) :
    (f.composed (xs.map (·.1))).eval groups t.columns = .ok e := by
  refine Formula.eval_composed hf (fun k hk cs hcs => ?_) he
  obtain ⟨x, e, hx, hev, rfl⟩ := h.column k cs hcs
  obtain ⟨cs, rfl⟩ := rows_of_eval (hs k hk x hx) hev
  refine ⟨x.1, by rw [List.getElem?_map, hx]; rfl, ?_⟩
  rw [eval_rowwise (hr x (List.mem_of_getElem? hx)), hev]
  rfl

theorem mapM_eval (h : t'.Shows xs t) (hr : ∀ x ∈ xs, x.1.isRowwise = true)
    (hs : ∀ k < width, ∀ x, xs[k]? = some x → x.1.isScalar = false)
    (hz : ∀ z ∈ zs, z.1.isWithin width = true) {es : List Extent}
    (he : (zs.map (·.1)).mapM (Formula.eval groups t'.columns) = .ok es) :
    ((zs.map (composedOver xs)).map (·.1)).mapM (Formula.eval groups t.columns) = .ok es := by
  rw [Outcome.mapM_eq_ok, List.forall₂_map_left_iff] at he ⊢
  rw [List.forall₂_map_left_iff]
  have hall := (List.forall₂_and_left _ _).mpr ⟨hz, he⟩
  exact hall.imp fun z e hze => h.eval hr hs hze.1 hze.2

end Table.Shows

theorem varying_of_columns {layout : Schema} {h : Header} {es : List Expr}
    {xs : List (Formula × ColumnType)}
    (hp : ∀ e ∈ es, e.isPlain = true) (hc : ∀ e ∈ es, e.columns ≠ [])
    (hx : formulas? layout h es = some xs) :
    ∀ x ∈ xs, x.1.isScalar = false := by
  refine forall_formulas? (fun e he x hd => ?_) hx
  rw [hd.isScalar_eq (hp e he), List.isEmpty_eq_false_iff]
  exact hc e he

end Engine

namespace Opened
variable {o : Opened} {es fs : List Expr} {xs ks zs : List (Formula × ColumnType)} {s u : Schema}

theorem exists_of_columnAt? (hx : formulas? o.layout o.header es = some xs)
    (hs : s.length = es.length) {i : Int} {k : Nat} {t : ColumnType}
    (hi : columnAt? (o.select xs s).layout (o.select xs s).header i = some (k, t)) :
    ∃ e y, Schema.position? es.length i = some k ∧ es[k]? = some e ∧
    (xs.map (·.1))[k]? = some y ∧
      Denotes (columnAt? o.layout o.header) e y t := by
  have hlen : xs.length = s.length := (length_formulas? hx).trans hs.symm
  obtain ⟨hk, ht⟩ := (placed_select o hlen).found hi
  rw [select, types_positionalHeader, List.getElem?_map] at ht
  obtain ⟨⟨y, t'⟩, hy, rfl⟩ := Option.map_eq_some_iff.mp ht
  obtain ⟨e, he, hd⟩ := Outcome.exists_of_forall₂_getElem? (formulas?_eq_some.mp hx).flip hy
  exact ⟨e, y, hs ▸ hk, he, by rw [List.getElem?_map, hy]; rfl, hd⟩

/-- Over a selection expressions come to what they come to over the table that was selected from,
with the expressions of the selection in the place of their columns. -/
theorem formulas?_substitute (hx : formulas? o.layout o.header es = some xs)
    (hs : s.length = es.length)
    (hz : formulas? (o.select xs s).layout (o.select xs s).header fs = some zs) :
    formulas? o.layout o.header (fs.map (Expr.substitute es)) =
      some (zs.map (composedOver xs)) := by
  rw [formulas?_eq_some, List.forall₂_map_left_iff, List.forall₂_map_right_iff]
  refine (formulas?_eq_some.mp hz).imp fun f z hd => ?_
  exact hd.substitute fun i k t hi => exists_of_columnAt? hx hs hi

theorem isWithin_of_select (hx : formulas? o.layout o.header es = some xs)
    (hs : s.length = es.length)
    (hz : formulas? (o.select xs s).layout (o.select xs s).header fs = some zs) :
    ∀ z ∈ zs, z.1.isWithin xs.length = true := by
  refine forall_formulas? (fun f _ z hd => hd.isWithin fun i _ k t hi => ?_) hz
  obtain ⟨e, y, -, -, hy, -⟩ := exists_of_columnAt? hx hs hi
  have hlt := (List.getElem?_eq_some_iff.mp hy).1
  rwa [List.length_map] at hlt

theorem shows_of_select (hs : ∃ x ∈ xs, x.1.isScalar = false) {t' : Table}
    (h : (o.select xs s).run [] none = some t') : ∃ t, o.run [] none = some t ∧
    t'.Shows xs t := by
  obtain ⟨t, vs, ht, hvs, rfl⟩ := run_select_eq_some.mp h
  rw [Outcome.mapM_eq_ok, List.forall₂_map_left_iff] at hvs
  obtain ⟨x, hx, hscalar⟩ := hs
  obtain ⟨v, hv, hev⟩ := Outcome.exists_of_forall₂ hvs hx
  obtain ⟨cs, rfl⟩ := rows_of_eval hscalar hev
  have hne : vs.isEmpty = false := by
    cases vs with
    | nil => cases hv
    | cons => rfl
  have hall : vs.all Extent.isOne = false := List.all_eq_false.mpr ⟨_, hv, nofun⟩
  rw [selected, hne, hall, if_neg Bool.false_ne_true, if_neg Bool.false_ne_true]
  refine ⟨t, ht, rfl, fun k cs hcs => ?_⟩
  rw [List.getElem?_map] at hcs
  obtain ⟨e, he, rfl⟩ := Option.map_eq_some_iff.mp hcs
  obtain ⟨x, hx, hev⟩ := Outcome.exists_of_forall₂_getElem? hvs.flip he
  exact ⟨x, e, hx, hev, rfl⟩

section runs
variable {t : Table} (hr : ∀ x ∈ xs, x.1.isRowwise = true)
    (hs : ∀ x ∈ xs, x.1.isScalar = false) (hne : xs ≠ [])
include hr hs hne

theorem run_select_select (hz : ∀ z ∈ zs, z.1.isWithin xs.length = true)
    (h : ((o.select xs s).select zs u).run [] none = some t) :
    (o.select (zs.map (composedOver xs)) u).run [] none = some t := by
  obtain ⟨t', vs, ht', hvs, rfl⟩ := run_select_eq_some.mp h
  obtain ⟨x, hx⟩ := List.exists_mem_of_ne_nil xs hne
  obtain ⟨t₀, ht₀, hshows⟩ := shows_of_select ⟨x, hx, hs x hx⟩ ht'
  have hvs := hshows.mapM_eval hr (fun k _ x hx => hs x (List.mem_of_getElem? hx)) hz hvs
  exact run_select_eq_some.mpr ⟨t₀, vs, ht₀, hvs, by rw [hshows.rows]⟩

theorem run_select_groups (hk : ∀ k ∈ ks, k.1.isWithin xs.length = true)
    (hz : ∀ z ∈ zs, z.1.isWithin xs.length = true)
    (h : ((o.select xs s).group ks zs u).run [] none = some t) :
    (o.group (ks.map (composedOver xs)) (zs.map (composedOver xs)) u).run [] none = some t := by
  obtain ⟨t', vs, keys, found, ht', hvs, hkeys, hfound, rfl⟩ := run_group_eq_some.mp h
  obtain ⟨x, hx⟩ := List.exists_mem_of_ne_nil xs hne
  obtain ⟨t₀, ht₀, hshows⟩ := shows_of_select ⟨x, hx, hs x hx⟩ ht'
  have hall : ∀ k < xs.length, ∀ x, xs[k]? = some x → x.1.isScalar = false :=
    fun k _ x hx => hs x (List.mem_of_getElem? hx)
  rw [hshows.rows] at hkeys hfound
  refine run_group_eq_some.mpr ⟨t₀, vs, keys, found, ht₀, hshows.mapM_eval hr hall hk hvs,
    hkeys, hshows.mapM_eval hr hall hz hfound, ?_⟩
  rw [Table.grouped, Table.grouped, hshows.rows, List.length_map]

end runs

end Opened
end LazyQuery
