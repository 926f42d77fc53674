import LazyQuery.Engine.Relation
import LazyQuery.Proofs.Outcome

/-! Tables as lists of rows. Without aggregates a formula takes its value at a row from that row
alone, but for one thing: a single row is divided by a value for all rows as a cell is divided by a
cell, and several rows are not. -/
namespace LazyQuery.Engine

def Table.Even (t : Table) : Prop := ∀ c ∈ t.columns, c.length = t.rows

def Table.ofRows (width : Nat) (rows : List (List Deferred)) : Table :=
  ⟨rows.length, (List.range width).map fun k => rows.map fun row => row.getD k (.ok .null)⟩

theorem Table.exists_rows {t : Table} (ht : t.Even) :
    ∃ rows, (∀ row ∈ rows, row.length = t.columns.length) ∧
    t = ofRows t.columns.length rows := by
  obtain ⟨n, columns⟩ := t
  refine ⟨(List.range n).map fun i => columns.map fun c => c.getD i (.ok .null), ?_, ?_⟩
  · intro row hrow
    obtain ⟨i, -, rfl⟩ := List.mem_map.mp hrow
    exact List.length_map _
  rw [ofRows, List.length_map, List.length_range]
  congr 1
  apply List.ext_getElem (by simp)
  intro k hk hk'
  have hn : columns[k].length = n := ht _ (List.getElem_mem hk)
  apply List.ext_getElem (by simpa using hn)
  intro i hi hi'
  simp [hk, hi]

theorem Table.even_ofRows (width : Nat) (rows : List (List Deferred)) :
    (ofRows width rows).Even := by
  intro c hc
  obtain ⟨k, -, rfl⟩ := List.mem_map.mp hc
  simp [ofRows]

theorem Table.cut_none (t : Table) : t.cut none = t := rfl

theorem Table.even_cut {t : Table} (ht : t.Even) (bound : Option Nat) : (t.cut bound).Even := by
  cases bound with
  | none => exact ht
  | some n =>
    intro c hc
    obtain ⟨d, hd, rfl⟩ := List.mem_map.mp hc
    simp [cut, ht d hd]

/-- Kernels that divide. They compute a column over a single value in a form of its own. -/
def Kernel.divides : Kernel → Bool
  | .real .div _ | .real .mod _ | .scale .div _ | .scale .mod _ | .ratio => true
  | _ => false

theorem realByScalar_eq {op : Operator} (hd : op ≠ .div) (hm : op ≠ .mod) (single : Bool)
    (x y : Float) :
    realByScalar op single x y = realArithmetic op single x y := by
  cases op <;> simp_all [realByScalar]

theorem Kernel.applyScalar_eq {k : Kernel} (h : k.divides = false) (a b : Cell) :
    k.applyScalar a b = k.apply a b := by
  cases k with
  | real op single =>
    have hop : op ≠ .div ∧ op ≠ .mod := by
      cases op <;> simp_all [Kernel.divides]
    cases a <;> cases b <;> simp [applyScalar, apply, realByScalar_eq hop.1 hop.2]
  | scale op single =>
    have hop : op ≠ .div ∧ op ≠ .mod := by
      cases op <;> simp_all [Kernel.divides]
    have hr : realByScalar op single = realArithmetic op single := by
      funext x y
      exact realByScalar_eq hop.1 hop.2 single x y
    rw [applyScalar, apply, hr]
  | ratio => cases h
  | _ => rfl

namespace Formula

/-- The value at a row, where `alone` says that there is no other row. -/
def atRow (alone : Bool) (row : List Deferred) : Formula → Deferred
  | .column i => row.getD i (.ok .null)
  | .constant c => .ok c
  | .cast s t f => f.atRow alone row >>= castCell s t
  | .combine k l r =>
    if !alone && !l.isScalar && r.isScalar then
      applyScalar k (l.atRow alone row) (r.atRow alone row)
    else applyKernel k (l.atRow alone row) (r.atRow alone row)
  | .negate t f => f.atRow alone row >>= fun c => .ok (Engine.negate t c)
  | .isNull f => f.atRow alone row >>= fun c => .ok (.bool c.isNull)
  | .isNotNull f => f.atRow alone row >>= fun c => .ok (.bool !c.isNull)
  | .reduce .. => fail .invalidOperation

def isSteady : Formula → Bool
  | .column _ | .constant _ => true
  | .combine k l r => l.isSteady && r.isSteady && !(k.divides && !l.isScalar && r.isScalar)
  | .cast _ _ f | .negate _ f | .isNull f | .isNotNull f | .reduce _ _ f => f.isSteady

def isWithin (width : Nat) : Formula → Bool
  | .column i => i < width
  | .constant _ => true
  | .combine _ l r => l.isWithin width && r.isWithin width
  | .cast _ _ f | .negate _ f | .isNull f | .isNotNull f | .reduce _ _ f => f.isWithin width

theorem atRow_scalar {f : Formula} (hf : f.isScalar = true) (alone alone' : Bool)
    (row row' : List Deferred) : f.atRow alone row = f.atRow alone' row' := by
  induction f with
  | column => cases hf
  | combine k l r ihl ihr =>
    have hlr : l.isScalar = true ∧ r.isScalar = true := (Bool.and_eq_true _ _).mp hf
    simp [atRow, hlr.1, ihl hlr.1, ihr hlr.2]
  | constant => rfl
  | reduce => rfl
  | cast _ _ _ ih => rw [atRow, atRow, ih hf]
  | negate _ _ ih => rw [atRow, atRow, ih hf]
  | isNull _ ih => rw [atRow, atRow, ih hf]
  | isNotNull _ ih => rw [atRow, atRow, ih hf]

def onRows (rows : List (List Deferred)) (f : Formula) : Extent :=
  if f.isScalar then .one (f.atRow false [])
  else .rows (rows.map fun row => f.atRow (rows.length == 1) row)

end Formula

theorem againstOne_map {α : Type} (k : Kernel) (rows : List α) (g : α → Deferred)
    (y : Deferred) :
    againstOne k (rows.map g) y =
      rows.map fun row => if rows.length == 1 then applyKernel k (g row) y else applyScalar k
        (g row) y := by
  match rows with
  | [] => rfl
  | [row] => rfl
  | row :: row' :: rows => simp [againstOne]

theorem combine_onRows {k : Kernel} {l r : Formula} (p : Partition) (rows : List (List Deferred)) :
    (l.onRows rows).combine p k (r.onRows rows) = (Formula.combine k l r).onRows rows := by
  cases hl : l.isScalar <;> cases hr : r.isScalar
  all_goals simp only [Formula.onRows, Formula.isScalar, hl, hr, Bool.and_true, Bool.and_false,
    Bool.and_self, if_true, Bool.false_eq_true, if_false, Extent.combine, Formula.atRow]
  · simp [List.zipWith_map, List.zipWith_self]
  · rw [againstOne_map]
    congr 1
    apply List.map_congr_left
    intro row _
    rw [Formula.atRow_scalar hr false (rows.length == 1) [] row]
    cases rows.length == 1 <;> rfl
  · rw [List.map_map]
    congr 1
    apply List.map_congr_left
    intro row _
    simp [Formula.atRow_scalar hl false (rows.length == 1) [] row]
  · simp

theorem map_onRows (inner outer : Formula) {g : Cell → Deferred}
    (hs : outer.isScalar = inner.isScalar)
    (hg : ∀ alone row, outer.atRow alone row = (inner.atRow alone row >>= g))
    (rows : List (List Deferred)) : (inner.onRows rows).map g = outer.onRows rows := by
  rw [Formula.onRows, Formula.onRows, hs, hg]
  cases inner.isScalar with
  | true => rfl
  | false => simp [Extent.map, hg]

/-- Over rows a formula without aggregates has one value for all of them, or one at each. -/
theorem eval_ofRows {f : Formula} (hf : f.isRowwise = true) (width : Nat)
    (rows : List (List Deferred)) :
    f.eval none (Table.ofRows width rows).columns =
      if f.isWithin width then .ok (f.onRows rows) else fail .missingColumn := by
  induction f with
  | column i =>
    by_cases hi : i < width
    · simp [Formula.eval, Formula.isWithin, Formula.onRows, Formula.isScalar, Formula.atRow,
        Table.ofRows, hi]
    · simp [Formula.eval, Formula.isWithin, Table.ofRows, hi]
  | constant => rfl
  | reduce => cases hf
  | combine k l r ihl ihr =>
    have hlr : l.isRowwise = true ∧ r.isRowwise = true := (Bool.and_eq_true _ _).mp hf
    rw [Formula.eval, ihl hlr.1, ihr hlr.2, Formula.isWithin]
    cases l.isWithin width with
    | false => rfl
    | true =>
      cases r.isWithin width with
      | false => rfl
      | true =>
        rw [← combine_onRows]
        rfl
  | cast s t f ih =>
    rw [Formula.eval, ih hf, Formula.isWithin]
    split
    · rw [Outcome.ok_bind, map_onRows f (.cast s t f) rfl fun _ _ => rfl]
    · rfl
  | negate t f ih =>
    rw [Formula.eval, ih hf, Formula.isWithin]
    split
    · rw [Outcome.ok_bind, map_onRows f (.negate t f) rfl fun _ _ => rfl]
    · rfl
  | isNull f ih =>
    rw [Formula.eval, ih hf, Formula.isWithin]
    split
    · rw [Outcome.ok_bind, map_onRows f (.isNull f) rfl fun _ _ => rfl]
    · rfl
  | isNotNull f ih =>
    rw [Formula.eval, ih hf, Formula.isWithin]
    split
    · rw [Outcome.ok_bind, map_onRows f (.isNotNull f) rfl fun _ _ => rfl]
    · rfl

section selection
variable {fs : List Formula}

theorem mapM_eval_ofRows (hr : ∀ f ∈ fs, f.isRowwise = true) (width : Nat)
    (rows : List (List Deferred)) :
    fs.mapM (Formula.eval none (Table.ofRows width rows).columns) =
      if fs.all (Formula.isWithin width) then .ok (fs.map (Formula.onRows rows))
      else fail .missingColumn := by
  induction fs with
  | nil => rfl
  | cons f fs ih =>
    have hf := eval_ofRows (hr f (List.mem_cons_self ..)) width rows
    have hfs := ih fun g hg => hr g (List.mem_cons_of_mem _ hg)
    rw [List.mapM_cons, hf, hfs, List.all_cons]
    cases f.isWithin width with
    | false => rfl
    | true =>
      cases fs.all (Formula.isWithin width) with
      | false => rfl
      | true => rfl

theorem isOne_onRows (rows : List (List Deferred)) (f : Formula) :
    (f.onRows rows).isOne = f.isScalar := by
  rw [Formula.onRows]
  cases f.isScalar <;> rfl

theorem atRows_onRows (rows : List (List Deferred)) (f : Formula) :
    (f.onRows rows).atRows rows.length = rows.map fun row => f.atRow (rows.length == 1) row := by
  rw [Formula.onRows]
  cases hs : f.isScalar with
  | false => rfl
  | true =>
    have hc : ∀ row, f.atRow (rows.length == 1) row = f.atRow false [] := fun row =>
      Formula.atRow_scalar hs _ _ row []
    simp [Extent.atRows, hc, List.map_const']

theorem selected_onRows (hs : fs.any (fun f => !f.isScalar) = true) (rows : List (List Deferred)) :
    selected rows.length (fs.map (Formula.onRows rows)) =
      Table.ofRows fs.length (rows.map fun row =>
        fs.map (Formula.atRow (rows.length == 1) row)) := by
  obtain ⟨f, hf, hfs⟩ := List.any_eq_true.mp hs
  have hne : (fs.map (Formula.onRows rows)).isEmpty = false := by
    cases fs with
    | nil => cases hf
    | cons => rfl
  have hall : (fs.map (Formula.onRows rows)).all Extent.isOne = false := by
    rw [List.all_map, List.all_eq_false]
    refine ⟨f, hf, ?_⟩
    rw [Function.comp_apply, isOne_onRows]
    simpa using hfs
  rw [selected, hne, hall, Table.ofRows, List.length_map]
  congr 1
  apply List.ext_getElem (by simp)
  intro k hk hk'
  simp only [List.map_map, List.getElem_map, List.getElem_range, Function.comp_apply,
    Bool.false_eq_true, if_false, atRows_onRows]
  apply List.map_congr_left
  intro row _
  have hlt : k < fs.length := by simpa using hk'
  simp [hlt]

end selection

end LazyQuery.Engine
