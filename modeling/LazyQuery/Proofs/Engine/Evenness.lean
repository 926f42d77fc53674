import LazyQuery.Engine.Planning
import LazyQuery.Proofs.Engine.Tabulation

/-! Results are tables: whatever a relation is made of, its columns have one cell for each row. -/
namespace LazyQuery

theorem Batch.totalRows_nil : totalRows [] = 0 := rfl

theorem Batch.totalRows_cons (b : Batch) (bs : List Batch) :
    totalRows (b :: bs) = b.rows + totalRows bs := by
  have hfold : ∀ n, bs.foldl (fun n b => n + b.rows) n = n + totalRows bs := by
    induction bs with
    | nil => exact fun n => rfl
    | cons b bs ih =>
      intro n
      rw [totalRows, List.foldl_cons, List.foldl_cons, ih, ih]
      omega
  rw [totalRows, List.foldl_cons, hfold, Nat.zero_add]

theorem Batch.length_stacked {k : Nat} {bs : List Batch} (hk : ∀ b ∈ bs, k < b.schema.length) :
    (bs.flatMap fun b => b.columns.getD k []).length = totalRows bs := by
  induction bs with
  | nil => rfl
  | cons b bs ih =>
    have hb : k < b.columns.length := b.width ▸ hk b (List.mem_cons_self ..)
    have hc : (b.columns.getD k []).length = b.rows := by
      rw [List.getD_eq_getElem?_getD, List.getElem?_eq_getElem hb]
      exact b.height _ (List.getElem_mem hb)
    rw [List.flatMap_cons, List.length_append, hc, ih fun c hm => hk c (List.mem_cons_of_mem _ hm),
      totalRows_cons]

namespace Engine

def Relation.Even : Relation → Prop
  | .table _ n columns => ∀ c ∈ columns, c.length = n
  | .delimited .. | .columnar _ => True
  | .select _ r | .filter _ r | .take _ r | .group _ _ r => r.Even

section sources

theorem length_of_mem_storedColumns {s : Schema} {bs : List Batch} (hs : ∀ b ∈ bs, b.schema = s)
    {c : List Deferred} (hc : c ∈ storedColumns s bs) : c.length = Batch.totalRows bs := by
  obtain ⟨k, hk, rfl⟩ := List.getElem_of_mem hc
  have hlt : k < s.length := by
    rw [storedColumns, List.length_zipWith] at hk
    omega
  have hlen : (bs.flatMap fun b => b.columns.getD k []).length = Batch.totalRows bs :=
    Batch.length_stacked fun b hb => by rw [hs b hb]; exact hlt
  simp [storedColumns, Batch.stack, ← hlen]

theorem even_emptyTable {s : Schema} {r : Relation} (h : emptyTable s = .ok r) : r.Even := by
  obtain ⟨columns, -, h⟩ := Outcome.bind_eq_ok.mp h
  cases h
  intro c hc
  obtain ⟨-, -, rfl⟩ := List.mem_map.mp hc
  rfl

theorem even_memoryTable {s : Schema} {bs : List Batch} {r : Relation}
    (h : memoryTable s bs = .ok r) : r.Even := by
  unfold memoryTable at h
  split at h
  · exact even_emptyTable h
  · split at h
    · cases h
    · rename_i hs
      obtain ⟨header, -, h⟩ := Outcome.bind_eq_ok.mp h
      cases h
      have hs : ∀ b ∈ bs, b.schema = s := by simpa using hs
      exact fun c hc => length_of_mem_storedColumns hs hc

theorem even_fileRelation {scan : FileScan} {r : Relation} (h : fileRelation scan = .ok r) :
    r.Even := by
  obtain ⟨t, ht, h⟩ := Outcome.bind_eq_ok.mp h
  have hte : t.Even := by
    unfold fileTable at ht
    split at ht
    · obtain ⟨columns, -, ht⟩ := Outcome.bind_eq_ok.mp ht
      obtain ⟨separator, -, ht⟩ := Outcome.bind_eq_ok.mp ht
      cases ht
      trivial
    · cases ht
      trivial
    · cases ht
  split at h
  · cases h
    exact hte
  · cases h
    exact hte

theorem even_of_relationOf {p : Plan} {r : Relation} {layout : Schema}
    (h : relationOf p = .ok (r, layout)) : r.Even := by
  induction p generalizing r layout with
  | empty s =>
    obtain ⟨t, ht, h⟩ := Outcome.bind_eq_ok.mp h
    cases h
    exact even_emptyTable ht
  | memory bs s =>
    obtain ⟨t, ht, h⟩ := Outcome.bind_eq_ok.mp h
    cases h
    exact even_memoryTable ht
  | file scan =>
    obtain ⟨t, ht, h⟩ := Outcome.bind_eq_ok.mp h
    cases h
    exact even_fileRelation ht
  | projection es p s ih =>
    obtain ⟨⟨t, l⟩, ht, h⟩ := Outcome.bind_eq_ok.mp h
    obtain ⟨terms, -, h⟩ := Outcome.bind_eq_ok.mp h
    cases h
    have hte : t.Even := ih ht
    exact hte
  | selection e p ih =>
    obtain ⟨⟨t, l⟩, ht, h⟩ := Outcome.bind_eq_ok.mp h
    obtain ⟨u, -, h⟩ := Outcome.bind_eq_ok.mp h
    cases h
    have hte : t.Even := ih ht
    exact hte
  | limit count p s ih =>
    obtain ⟨⟨t, l⟩, ht, h⟩ := Outcome.bind_eq_ok.mp h
    dsimp only at h
    split at h
    · obtain ⟨n, -, h⟩ := Outcome.bind_eq_ok.mp h
      cases h
      have hte : t.Even := ih ht
      exact hte
    · cases h
  | aggregate p groups aggregates s ih =>
    obtain ⟨⟨t, l⟩, ht, h⟩ := Outcome.bind_eq_ok.mp h
    obtain ⟨ks, -, h⟩ := Outcome.bind_eq_ok.mp h
    obtain ⟨as, -, h⟩ := Outcome.bind_eq_ok.mp h
    have hte : t.Even := ih ht
    cases h
    split
    · exact hte
    · exact hte
  | bare => cases h

end sources

/-- A value for each of the rows, or for each of the groups where there are groups. -/
def Extent.Fits (rows : Nat) (groups : Option Partition) : Extent → Prop
  | .one _ => True
  | .rows cs => cs.length = rows
  | .groups cs => ∃ p, groups = some p ∧ cs.length = p.count

def Divides (rows : Nat) (groups : Option Partition) : Prop :=
    ∀ p ∈ groups, p.owner.length = rows

theorem divides_none (rows : Nat) : Divides rows none := by
  intro p hp
  cases hp

section extents
variable {rows : Nat} {groups : Option Partition} {a b : Extent}

theorem Extent.fits_map (f : Cell → Deferred)
    (h : a.Fits rows groups) : (a.map f).Fits rows groups := by
  cases a with
  | one c => trivial
  | rows cs => exact (List.length_map _).trans h
  | groups cs =>
    obtain ⟨p, hp, hc⟩ := h
    exact ⟨p, hp, (List.length_map _).trans hc⟩

theorem length_againstOne (k : Kernel) (xs : List Deferred) (y : Deferred) :
    (againstOne k xs y).length = xs.length := by
  match xs with
  | [] => rfl
  | [x] => rfl
  | x :: x' :: xs => simp [againstOne]

theorem Extent.fits_combine (k : Kernel) (hg : Divides rows groups) (ha : a.Fits rows groups)
    (hb : b.Fits rows groups) : (a.combine (groups.getD ⟨[], 0⟩) k b).Fits rows groups := by
  cases a with
  | one x =>
    cases b with
    | one y => trivial
    | rows ys => exact (List.length_map _).trans hb
    | groups ys =>
      obtain ⟨p, hp, hy⟩ := hb
      exact ⟨p, hp, (List.length_map _).trans hy⟩
  | rows xs =>
    have hx : xs.length = rows := ha
    cases b with
    | one y => exact (length_againstOne ..).trans ha
    | rows ys =>
      have hy : ys.length = rows := hb
      simp [combine, Fits, hx, hy]
    | groups ys =>
      obtain ⟨p, rfl, hy⟩ := hb
      simp [combine, Fits, Partition.spread, hx, hg p rfl]
  | groups xs =>
    obtain ⟨p, rfl, hx⟩ := ha
    cases b with
    | one y => exact ⟨p, rfl, (length_againstOne ..).trans hx⟩
    | rows ys =>
      have hy : ys.length = rows := hb
      simp [combine, Fits, Partition.spread, hy, hg p rfl]
    | groups ys =>
      obtain ⟨p', hp, hy⟩ := hb
      cases hp
      exact ⟨p, rfl, by simp [hx, hy]⟩

theorem Extent.fits_reduce (r : Reduction) (t : ColumnType) (ha : a.Fits rows groups) :
    (a.reduce groups r t).Fits rows groups := by
  cases a with
  | one c => trivial
  | groups cs =>
    obtain ⟨p, hp, hc⟩ := ha
    exact ⟨p, hp, (List.length_map _).trans hc⟩
  | rows cs =>
    cases groups with
    | none => trivial
    | some p => exact ⟨p, rfl, by simp [Partition.split]⟩

/-- Over an even table formulas have as many values as there are rows or groups, or one. -/
theorem fits_eval {t : Table} (ht : t.Even) (hg : Divides t.rows groups) {f : Formula} {e : Extent}
    (he : f.eval groups t.columns = .ok e) : e.Fits t.rows groups := by
  induction f generalizing e with
  | column i =>
    rw [Formula.eval] at he
    split at he
    · rename_i cs hcs
      cases he
      exact ht cs (List.mem_of_getElem? hcs)
    · cases he
  | constant c =>
    cases he
    trivial
  | cast s t f ih =>
    obtain ⟨x, hx, he⟩ := Outcome.bind_eq_ok.mp he
    cases he
    exact Extent.fits_map _ (ih hx)
  | combine k l r ihl ihr =>
    obtain ⟨x, hx, he⟩ := Outcome.bind_eq_ok.mp he
    obtain ⟨y, hy, he⟩ := Outcome.bind_eq_ok.mp he
    cases he
    exact Extent.fits_combine k hg (ihl hx) (ihr hy)
  | negate t f ih =>
    obtain ⟨x, hx, he⟩ := Outcome.bind_eq_ok.mp he
    cases he
    exact Extent.fits_map _ (ih hx)
  | isNull f ih =>
    obtain ⟨x, hx, he⟩ := Outcome.bind_eq_ok.mp he
    cases he
    exact Extent.fits_map _ (ih hx)
  | isNotNull f ih =>
    obtain ⟨x, hx, he⟩ := Outcome.bind_eq_ok.mp he
    cases he
    exact Extent.fits_map _ (ih hx)
  | reduce r t f ih =>
    obtain ⟨x, hx, he⟩ := Outcome.bind_eq_ok.mp he
    split at he
    · cases he
      exact Extent.fits_reduce r t (ih hx)
    · cases he

theorem fits_mapM_eval {t : Table} (ht : t.Even) (hg : Divides t.rows groups) {fs : List Formula}
    {es : List Extent} (he : fs.mapM (Formula.eval groups t.columns) = .ok es) :
    ∀ e ∈ es, e.Fits t.rows groups := by
  induction fs generalizing es with
  | nil =>
    cases he
    exact nofun
  | cons f fs ih =>
    rw [List.mapM_cons] at he
    obtain ⟨e, hx, he⟩ := Outcome.bind_eq_ok.mp he
    obtain ⟨rest, hrest, he⟩ := Outcome.bind_eq_ok.mp he
    cases he
    exact List.forall_mem_cons.mpr ⟨fits_eval ht hg hx, ih hrest⟩

theorem Extent.length_atRows {n : Nat} {e : Extent} (he : e.Fits rows none)
    (hn : n = rows ∨ e.isOne = true) : (e.atRows n).length = n := by
  cases e with
  | one c => exact List.length_replicate
  | rows cs =>
    rcases hn with rfl | hn
    · exact he
    · cases hn
  | groups cs =>
    obtain ⟨p, hp, -⟩ := he
    cases hp

theorem even_selected {es : List Extent} (h : ∀ e ∈ es, e.Fits rows none) :
    (selected rows es).Even := by
  intro c hc
  obtain ⟨e, he, rfl⟩ := List.mem_map.mp hc
  have hne : es.isEmpty = false := by
    cases es with
    | nil => cases he
    | cons => rfl
  refine Extent.length_atRows (h e he) ?_
  by_cases hall : es.all Extent.isOne = true
  · exact .inr (List.all_eq_true.mp hall e he)
  · exact .inl (by rw [hne, if_neg Bool.false_ne_true, if_neg hall])

theorem length_atGroups {p : Partition} {e : Extent} (he : e.Fits rows (some p)) :
    (e.atGroups p).length = p.count := by
  cases e with
  | one c => exact List.length_replicate
  | rows cs => simp [Extent.atGroups, Partition.split]
  | groups cs =>
    obtain ⟨q, hq, hc⟩ := he
    cases hq
    exact hc

end extents

section running
variable {files : Files}

theorem length_filter_zip {α : Type} (p : Cell → Bool) {xs : List α} {verdicts : List Cell}
    (h : xs.length = verdicts.length) :
    ((xs.zip verdicts).filter fun e => p e.2).length = verdicts.countP p := by
  conv_rhs => rw [← List.map_snd_zip (Nat.le_of_eq h.symm), List.countP_map]
  rw [List.countP_eq_length_filter]
  rfl

/-- A cell, or a null where there is none. -/
def cellOf (d : Deferred) : Cell := d.toOption.getD .null

theorem settle_eq {cs : List Deferred} {out : List Cell} (h : settle cs = .ok out) :
    out = cs.map cellOf := by
  induction cs generalizing out with
  | nil =>
    cases h
    rfl
  | cons c cs ih =>
    rw [settle, List.mapM_cons] at h
    obtain ⟨x, hx, h⟩ := Outcome.bind_eq_ok.mp h
    obtain ⟨xs, hxs, h⟩ := Outcome.bind_eq_ok.mp h
    cases h
    have hc : cellOf c = x := by rw [show c = .ok x from hx]; rfl
    rw [List.map_cons, hc, ih hxs]

theorem length_settle {cs : List Deferred} {out : List Cell} (h : settle cs = .ok out) :
    out.length = cs.length := by
  rw [settle_eq h, List.length_map]

theorem length_keysOf {n : Nat} {es : List Extent} {keys : List (List Cell)}
    (h : keysOf n es = .ok keys) : keys.length = if es.all Extent.isOne then 1 else n := by
  obtain ⟨cells, -, h⟩ := Outcome.bind_eq_ok.mp h
  cases h
  simp [rowsOf]

/-- The groups of a grouping: one of all rows where the keys stand for all rows. -/
def groupsOf (n : Nat) (es : List Extent) (keys : List (List Cell)) : Partition :=
  if es.all Extent.isOne then ⟨List.replicate n 0, 1⟩ else Partition.ofKeys keys

theorem length_distinctKeys {n : Nat} {es : List Extent} {keys : List (List Cell)}
    (h : keysOf n es = .ok keys) : (distinctKeys keys).length = (groupsOf n es keys).count := by
  have hlen := length_keysOf h
  unfold groupsOf
  split
  · rename_i hall
    rw [hall, if_pos rfl] at hlen
    obtain ⟨k, rfl⟩ := List.length_eq_one_iff.mp hlen
    rfl
  · rfl

theorem length_owner {n : Nat} {es : List Extent} {keys : List (List Cell)}
    (h : keysOf n es = .ok keys) : (groupsOf n es keys).owner.length = n := by
  have hlen := length_keysOf h
  unfold groupsOf
  split
  · exact List.length_replicate
  · rename_i hall
    rw [if_neg hall] at hlen
    exact (List.length_map _).trans hlen

theorem even_readRows {types : List ColumnType} {hasHeader : Bool} {bound : Option Nat}
    {text : Delimited.Text} {n : Nat} {columns : List (List Deferred)}
    (h : readRows types hasHeader bound text = .ok (n, columns)) : Table.Even ⟨n, columns⟩ := by
  unfold readRows at h
  split at h
  · cases h
  · rename_i first rest hlines
    generalize within bound (if hasHeader then rest else first :: rest) = lines at h
    dsimp only at h
    split at h
    · cases h
    · split at h
      · cases h
      · cases h
        intro c hc
        obtain ⟨k, hk, rfl⟩ := List.mem_mapIdx.mp hc
        exact List.length_map _

/-- One row for each group of rows: its key, and the aggregates found for it. -/
def Table.grouped (t : Table) (width : Nat) (es : List Extent) (keys : List (List Cell))
    (found : List Extent) : Table :=
  ⟨(groupsOf t.rows es keys).count,
    (columnsOf width (distinctKeys keys)).map (fun c => c.map Except.ok) ++
    found.map (Extent.atGroups (groupsOf t.rows es keys))⟩

section picking
variable {ps : List Formula} {bound : Option Nat} {t t' : Table}

theorem satisfying_cons_ok {f : Formula} :
    t.satisfying (f :: ps) = .ok t' ↔
    ∃ e verdicts, (f.joined ps).eval none t.columns = .ok e ∧
      settle (e.atRows t.rows) = .ok verdicts ∧ t' = t.keep verdicts := by
  simp only [Table.satisfying, Outcome.bind_eq_ok, Except.ok.injEq, eq_comm (a := t')]
  constructor
  · rintro ⟨e, he, verdicts, hv, h⟩
    exact ⟨e, verdicts, he, hv, h⟩
  · rintro ⟨e, verdicts, he, hv, h⟩
    exact ⟨e, he, verdicts, hv, h⟩

theorem pick_ok :
    Table.pick ps bound t = .ok t' ↔ ∃ found, t.satisfying ps = .ok found ∧
    t' = found.cut bound := by
  simp only [Table.pick, Outcome.bind_eq_ok, Except.ok.injEq, eq_comm (a := t')]

end picking

section operators
variable {r : Relation} {predicates : List Formula} {bound : Option Nat} {t : Table}

theorem run_select_ok {c : Choice} :
    (Relation.select c r).run files predicates bound = .ok t ↔ ∃ h found down held input es,
      r.header files = .ok h ∧ c.resolve h = .ok found ∧
      Relation.handed (found.map (·.2.1)) predicates = (down, held) ∧
      r.run files down (Relation.passed bound (found.map (·.2.1)) held) = .ok input ∧
      (found.map (·.2.1)).mapM (Formula.eval none input.columns) = .ok es ∧
      Table.pick held bound (selected input.rows es) = .ok t := by
  constructor
  · intro hr
    obtain ⟨h, hh, hr⟩ := Outcome.bind_eq_ok.mp hr
    obtain ⟨found, hf, hr⟩ := Outcome.bind_eq_ok.mp hr
    obtain ⟨input, hin, hr⟩ := Outcome.bind_eq_ok.mp hr
    obtain ⟨es, hes, hr⟩ := Outcome.bind_eq_ok.mp hr
    exact ⟨h, found, _, _, input, es, hh, hf, rfl, hin, hes, hr⟩
  · rintro ⟨h, found, down, held, input, es, hh, hf, hd, hin, hes, ht⟩
    rw [Relation.run, hh, Outcome.ok_bind, hf, Outcome.ok_bind]
    dsimp only
    rw [hd]
    dsimp only
    rw [hin, Outcome.ok_bind, hes, Outcome.ok_bind, ht]

theorem run_filter_ok {p : Term} :
    (Relation.filter p r).run files predicates bound = .ok t ↔ ∃ h f type,
      r.header files = .ok h ∧ resolve h p = .ok (f, type) ∧
      (f.isRowwise = true ∧ r.run files (f.conjuncts ++ predicates) bound = .ok t ∨
        f.isRowwise = false ∧ ∃ input found, r.run files [] none = .ok input ∧
          input.satisfying [f] = .ok found ∧ Table.pick predicates bound found = .ok t) := by
  constructor
  · intro hr
    obtain ⟨h, hh, hr⟩ := Outcome.bind_eq_ok.mp hr
    obtain ⟨⟨f, type⟩, hf, hr⟩ := Outcome.bind_eq_ok.mp hr
    refine ⟨h, f, type, hh, hf, ?_⟩
    dsimp only at hr
    split at hr
    · rename_i hrow
      exact .inl ⟨hrow, hr⟩
    · rename_i hrow
      obtain ⟨input, hin, hr⟩ := Outcome.bind_eq_ok.mp hr
      obtain ⟨found, hfound, hr⟩ := Outcome.bind_eq_ok.mp hr
      exact .inr ⟨Bool.eq_false_iff.mpr hrow, input, found, hin, hfound, hr⟩
  · rintro ⟨h, f, type, hh, hf, hr⟩
    rw [Relation.run, hh, Outcome.ok_bind, hf, Outcome.ok_bind]
    dsimp only
    rcases hr with ⟨hrow, hr⟩ | ⟨hrow, input, found, hin, hfound, ht⟩
    · rw [if_pos hrow, hr]
    · rw [hrow, if_neg Bool.false_ne_true, hin, Outcome.ok_bind, hfound, Outcome.ok_bind, ht]

theorem run_take_ok {n : Nat} :
    (Relation.take n r).run files predicates bound = .ok t ↔
      (predicates = [] ∧ r.run files [] (some (Relation.tighter bound n)) = .ok t) ∨
      (predicates ≠ [] ∧ ∃ input, r.run files [] (some n) = .ok input ∧
        Table.pick predicates bound input = .ok t) := by
  cases predicates with
  | nil => simp [Relation.run]
  | cons p ps => simp [Relation.run, Outcome.bind_eq_ok]

theorem run_group_ok {keys aggregates : List (String × Term)} :
    (Relation.group keys aggregates r).run files predicates bound = .ok t ↔
    ∃ h ks as input es rowKeys found,
      r.header files = .ok h ∧ resolveAll h keys = .ok ks ∧ resolveAll h aggregates = .ok as ∧
      r.run files [] none = .ok input ∧
      (ks.map (·.2.1)).mapM (Formula.eval none input.columns) = .ok es ∧
      keysOf input.rows es = .ok rowKeys ∧
      (as.map (·.2.1)).mapM (Formula.eval (some (groupsOf input.rows es rowKeys)) input.columns) =
        .ok found ∧
      Table.pick predicates bound (input.grouped ks.length es rowKeys found) = .ok t := by
  simp only [List.mapM_map]
  constructor
  · intro hr
    obtain ⟨h, hh, hr⟩ := Outcome.bind_eq_ok.mp hr
    obtain ⟨ks, hks, hr⟩ := Outcome.bind_eq_ok.mp hr
    obtain ⟨as, has, hr⟩ := Outcome.bind_eq_ok.mp hr
    obtain ⟨input, hin, hr⟩ := Outcome.bind_eq_ok.mp hr
    obtain ⟨es, hes, hr⟩ := Outcome.bind_eq_ok.mp hr
    obtain ⟨rowKeys, hk, hr⟩ := Outcome.bind_eq_ok.mp hr
    obtain ⟨found, hf, hr⟩ := Outcome.bind_eq_ok.mp hr
    exact ⟨h, ks, as, input, es, rowKeys, found, hh, hks, has, hin, hes, hk, hf, hr⟩
  · rintro ⟨h, ks, as, input, es, rowKeys, found, hh, hks, has, hin, hes, hk, hf, ht⟩
    rw [Relation.run, hh, Outcome.ok_bind, hks, Outcome.ok_bind, has, Outcome.ok_bind, hin,
      Outcome.ok_bind]
    exact Outcome.bind_eq_ok.mpr ⟨es, hes, Outcome.bind_eq_ok.mpr ⟨rowKeys, hk,
      Outcome.bind_eq_ok.mpr ⟨found, hf, ht⟩⟩⟩

end operators

theorem even_satisfying {ps : List Formula} {t t' : Table} (ht : t.Even)
    (h : t.satisfying ps = .ok t') : t'.Even := by
  cases ps with
  | nil =>
    cases h
    exact ht
  | cons f ps =>
    obtain ⟨e, verdicts, he, hv, rfl⟩ := satisfying_cons_ok.mp h
    intro c hc
    obtain ⟨d, hd, rfl⟩ := List.mem_map.mp hc
    have hlen : d.length = verdicts.length := by
      rw [ht d hd, length_settle hv,
        Extent.length_atRows (fits_eval ht (divides_none _) he) (.inl rfl)]
    rw [List.length_map]
    exact length_filter_zip kept hlen

theorem even_pick {ps : List Formula} {bound : Option Nat} {t t' : Table} (ht : t.Even)
    (h : Table.pick ps bound t = .ok t') : t'.Even := by
  obtain ⟨found, hfound, rfl⟩ := pick_ok.mp h
  exact Table.even_cut (even_satisfying ht hfound) bound

/-- Every result of a relation over even tables is even. -/
theorem even_run {r : Relation} (hr : r.Even) {predicates : List Formula} {bound : Option Nat}
    {t : Table} (h : r.run files predicates bound = .ok t) : t.Even := by
  induction r generalizing predicates bound t with
  | table header n columns =>
    have ht : Table.Even ⟨n, columns⟩ := hr
    exact even_pick ht h
  | delimited path header hasHeader separator =>
    obtain ⟨file, -, h⟩ := Outcome.bind_eq_ok.mp h
    split at h
    · obtain ⟨⟨n, columns⟩, hrows, h⟩ := Outcome.bind_eq_ok.mp h
      exact even_pick (even_readRows hrows) h
    · cases h
  | columnar path =>
    obtain ⟨b, -, h⟩ := Outcome.bind_eq_ok.mp h
    refine even_pick (fun c hc => ?_) h
    have hs : ∀ b' ∈ [b], b'.schema = b.schema := fun b' hb => by rw [List.mem_singleton.mp hb]
    rw [length_of_mem_storedColumns hs hc, Batch.totalRows_cons, Batch.totalRows_nil, Nat.add_zero]
  | select choice r ih =>
    obtain ⟨header, found, down, held, input, es, -, -, -, hin, hes, h⟩ := run_select_ok.mp h
    exact even_pick (even_selected (fits_mapM_eval (ih hr hin) (divides_none _) hes)) h
  | filter p r ih =>
    obtain ⟨header, f, type, -, -, ⟨-, h⟩ | ⟨-, input, found, hin, hfound, h⟩⟩ :=
      run_filter_ok.mp h
    · exact ih hr h
    · exact even_pick (even_satisfying (ih hr hin) hfound) h
  | take n r ih =>
    rcases run_take_ok.mp h with ⟨-, h⟩ | ⟨-, input, hin, h⟩
    · exact ih hr h
    · exact even_pick (ih hr hin) h
  | group keys aggregates r ih =>
    obtain ⟨header, ks, as, input, es, rowKeys, found, -, -, -, hin, -, hk, hf, h⟩ :=
      run_group_ok.mp h
    refine even_pick (fun c hc => ?_) h
    rcases List.mem_append.mp hc with hc | hc
    · obtain ⟨d, hd, rfl⟩ := List.mem_map.mp hc
      obtain ⟨k, -, rfl⟩ := List.mem_map.mp hd
      rw [List.length_map, List.length_map]
      exact length_distinctKeys hk
    · obtain ⟨e, he, rfl⟩ := List.mem_map.mp hc
      refine length_atGroups (fits_mapM_eval (ih hr hin) ?_ hf e he)
      intro p hp
      cases hp
      exact length_owner hk

end running
end Engine
end LazyQuery
