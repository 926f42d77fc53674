import LazyQuery.Proofs.Engine.Composition

/-! One value for all rows, and copies of it at each row. The aggregate of the value is over one
cell, that of the copies over as many as there are rows, or rows of the group; the two are the same
where there is one, or where the aggregate is a least or a greatest. -/
namespace LazyQuery.Engine

section values
variable {groups : Option Partition} {columns : List (List Deferred)}

/-- A formula without columns has one value, over whatever table and groups it has one. -/
theorem exists_value {f : Formula} (hf : f.isWithin 0 = true) :
    ∃ v, ∀ groups columns e, f.eval groups columns = .ok e → e = .one v := by
  induction f with
  | column => cases hf
  | constant c =>
    refine ⟨.ok c, fun groups columns e h => ?_⟩
    cases h
    rfl
  | combine k l r ihl ihr =>
    have hf := (Bool.and_eq_true _ _).mp hf
    obtain ⟨x, hx⟩ := ihl hf.1
    obtain ⟨y, hy⟩ := ihr hf.2
    refine ⟨applyKernel k x y, fun groups columns e h => ?_⟩
    obtain ⟨a, ha, h⟩ := Outcome.bind_eq_ok.mp h
    obtain ⟨b, hb, h⟩ := Outcome.bind_eq_ok.mp h
    cases h
    rw [hx _ _ _ ha, hy _ _ _ hb]
    rfl
  | reduce r t f ih =>
    obtain ⟨x, hx⟩ := ih hf
    refine ⟨reduceCells r t [x], fun groups columns e h => ?_⟩
    obtain ⟨a, ha, h⟩ := Outcome.bind_eq_ok.mp h
    rw [hx _ _ _ ha] at h
    split at h
    · cases h
      rfl
    · cases h
  | cast s t f ih =>
    obtain ⟨x, hx⟩ := ih hf
    refine ⟨x >>= castCell s t, fun groups columns e h => ?_⟩
    obtain ⟨a, ha, h⟩ := Outcome.bind_eq_ok.mp h
    cases h
    rw [hx _ _ _ ha]
    rfl
  | negate t f ih =>
    obtain ⟨x, hx⟩ := ih hf
    refine ⟨x >>= fun c => .ok (Engine.negate t c), fun groups columns e h => ?_⟩
    obtain ⟨a, ha, h⟩ := Outcome.bind_eq_ok.mp h
    cases h
    rw [hx _ _ _ ha]
    rfl
  | isNull f ih =>
    obtain ⟨x, hx⟩ := ih hf
    refine ⟨x >>= fun c => .ok (.bool c.isNull), fun groups columns e h => ?_⟩
    obtain ⟨a, ha, h⟩ := Outcome.bind_eq_ok.mp h
    cases h
    rw [hx _ _ _ ha]
    rfl
  | isNotNull f ih =>
    obtain ⟨x, hx⟩ := ih hf
    refine ⟨x >>= fun c => .ok (.bool !c.isNull), fun groups columns e h => ?_⟩
    obtain ⟨a, ha, h⟩ := Outcome.bind_eq_ok.mp h
    cases h
    rw [hx _ _ _ ha]
    rfl

end values

def Reduction.IgnoresCopies (r : Reduction) (n : Nat) : Prop := n = 1 ∨
    (r = .min ∨ r = .max) ∧ 0 < n

section copies
variable {r : Reduction} {t : ColumnType}

theorem best_replicate (before : Cell → Cell → Bool) (n : Nat) (c : Cell) :
    Reduction.best before (List.replicate (n + 1) c) = c := by
  rw [List.replicate_succ, Reduction.best]
  induction n with
  | zero => rfl
  | succ n ih => rwa [List.replicate_succ, List.foldl_cons, ite_self]

theorem ranked_present_replicate (n : Nat) (c : Cell) :
    Reduction.ranked (Reduction.present (List.replicate (n + 1) c)) =
      if c.isNull then [] else List.replicate (n + 1) c := by
  unfold Reduction.present Reduction.ranked
  cases hn : c.isNull with
  | true => simp [hn]
  | false =>
    cases hc : Reduction.isNaNCell c with
    | true => simp [hn, hc]
    | false => simp [hn, hc, List.replicate_succ]

theorem apply_eq_best (hr : r = .min ∨ r = .max) (t : ColumnType) :
    ∃ before, ∀ cs, r.apply t cs =
      if t.isNested then .null else Reduction.best before
        (Reduction.ranked (Reduction.present cs)) := by
  rcases hr with rfl | rfl
  · exact ⟨_, fun cs => rfl⟩
  · exact ⟨_, fun cs => rfl⟩

theorem apply_replicate (hr : r = .min ∨ r = .max) (n : Nat) (c : Cell) :
    r.apply t (List.replicate (n + 1) c) = r.apply t [c] := by
  obtain ⟨before, hbest⟩ := apply_eq_best hr t
  have hone : [c] = List.replicate (0 + 1) c := rfl
  rw [hbest, hbest, hone, ranked_present_replicate, ranked_present_replicate]
  cases c.isNull with
  | true => rfl
  | false =>
    rw [if_neg Bool.false_ne_true, if_neg Bool.false_ne_true, best_replicate, best_replicate]

theorem settle_replicate (n : Nat) (d : Deferred) :
    settle (List.replicate (n + 1) d) = d.map fun c => List.replicate (n + 1) c := by
  induction n with
  | zero => cases d <;> rfl
  | succ n ih =>
    rw [settle] at ih ⊢
    rw [List.replicate_succ, List.mapM_cons, ih]
    cases d <;> rfl

theorem reduceCells_replicate {n : Nat} (h : r.IgnoresCopies n) (d : Deferred) :
    reduceCells r t (List.replicate n d) = reduceCells r t [d] := by
  rcases h with rfl | ⟨hr, hn⟩
  · rfl
  · obtain ⟨n, rfl⟩ := Nat.exists_eq_succ_of_ne_zero hn.ne'
    have hone : [d] = List.replicate (0 + 1) d := rfl
    rw [hone, reduceCells, reduceCells, settle_replicate, settle_replicate]
    cases d with
    | error e => rfl
    | ok c => exact congrArg Except.ok (apply_replicate hr n c)

end copies

section groups
variable {p : Partition} {r : Reduction} {t : ColumnType} {d : Deferred} {n : Nat}

theorem gather_replicate {α : Type} (h : p.owner.length = n) (g : Nat) (x : α) :
    p.gather g (List.replicate n x) = List.replicate (p.owner.count g) x := by
  have hmap : List.replicate n x = p.owner.map fun _ => x := by rw [List.map_const', h]
  rw [hmap, gather_map, List.map_const', length_gather p g rfl]

theorem count_pos_of_groupsOf {vs : List Extent} {keys : List (List Cell)}
    (hk : keysOf n vs = .ok keys)
    (hn : 0 < n) {g : Nat} (hg : g < (groupsOf n vs keys).count) : 0 <
      (groupsOf n vs keys).owner.count g := by
  have hlen := length_keysOf hk
  unfold groupsOf at hg ⊢
  split
  · rename_i hall
    rw [if_pos hall] at hg
    obtain rfl : g = 0 := Nat.lt_one_iff.mp hg
    rwa [List.count_replicate_self]
  · rename_i hall
    rw [if_neg hall] at hg hlen
    have hd : (distinctKeys keys)[g]? = some (distinctKeys keys)[g] := List.getElem?_eq_getElem hg
    have hmem := (firsts_distinctKeys keys).sublist.mem (List.getElem_mem hg)
    have hne : membersOf keys (distinctKeys keys)[g] keys ≠ [] := membersOf_ne_nil hmem le_rfl
    rw [← gather_ofKeys hd, ← List.length_pos_iff, length_gather] at hne
    · exact hne
    · exact (List.length_map _).symm

theorem ignoresCopies_of_groupsOf {vs : List Extent} {keys : List (List Cell)}
    (hk : keysOf n vs = .ok keys)
    (hr : r.IgnoresCopies n) {g : Nat} (hg : g < (groupsOf n vs keys).count) :
    r.IgnoresCopies ((groupsOf n vs keys).owner.count g) := by
  have hn : 0 < n := by
    rcases hr with rfl | ⟨-, hn⟩
    · exact Nat.one_pos
    · exact hn
  have hpos := count_pos_of_groupsOf hk hn hg
  rcases hr with rfl | ⟨hr, -⟩
  · have hle := List.count_le_length (a := g) (l := (groupsOf 1 vs keys).owner)
    rw [length_owner hk] at hle
    exact .inl (Nat.le_antisymm hle hpos)
  · exact .inr ⟨hr, hpos⟩

theorem reduce_copies (hr : r.IgnoresCopies n) :
    (Extent.rows (List.replicate n d)).reduce none r t = .one (reduceCells r t [d]) :=
  congrArg Extent.one (reduceCells_replicate hr d)

theorem reduce_copies_grouped (hp : p.owner.length = n)
    (hr : ∀ g < p.count, r.IgnoresCopies (p.owner.count g)) :
    (Extent.rows (List.replicate n d)).reduce (some p) r t =
      .groups (List.replicate p.count (reduceCells r t [d])) := by
  have hsplit : (p.split (List.replicate n d)).map (reduceCells r t) =
      (List.range p.count).map fun _ => reduceCells r t [d] := by
    rw [Partition.split, List.map_map]
    apply List.map_congr_left
    intro g hg
    rw [Function.comp_apply, gather_replicate hp,
      reduceCells_replicate (hr g (List.mem_range.mp hg))]
  rw [List.map_const', List.length_range] at hsplit
  exact congrArg Extent.groups hsplit

end groups

/-- Copies of a value at each row. -/
theorem Table.Shows.copies {t t' : Table} {xs : List (Formula × ColumnType)}
    {x : Formula × ColumnType} {n : Nat}
    (h : t'.Shows xs t) (hx : xs[n]? = some x) (hr : x.1.isRowwise = true)
    (hw : x.1.isWithin 0 = true)
    {cs : List Deferred} (hcs : t'.columns[n]? = some cs) :
    ∃ d, cs = List.replicate t.rows d ∧
    ∀ groups, x.1.eval groups t.columns = .ok (.one d) := by
  obtain ⟨x', e, hx', he, rfl⟩ := h.column n cs hcs
  cases hx.symm.trans hx'
  obtain ⟨d, hd⟩ := exists_value hw
  obtain rfl := hd _ _ _ he
  exact ⟨d, rfl, fun groups => (eval_rowwise hr groups).trans he⟩

section aggregates
variable {t t' : Table} {xs : List (Formula × ColumnType)} {x : Formula × ColumnType} {n : Nat}
    {r : Reduction}
  {s u c : ColumnType} {e : Extent}

theorem eval_reduce_copies (h : t'.Shows xs t) (hx : xs[n]? = some x) (hr : x.1.isRowwise = true)
    (hw : x.1.isWithin 0 = true) (hcopies : r.IgnoresCopies t.rows)
    (he : ((Formula.reduce r s (.column n)).coerced u c).eval none t'.columns = .ok e) :
    ((Formula.reduce r s x.1).coerced u c).eval none t.columns = .ok e := by
  rw [eval_coerced] at he ⊢
  obtain ⟨a, ha, he⟩ := Outcome.bind_eq_ok.mp he
  obtain ⟨b, hb, ha⟩ := Outcome.bind_eq_ok.mp ha
  rw [Formula.eval] at hb
  split at hb
  · rename_i cs hcs
    cases hb
    obtain ⟨d, rfl, hd⟩ := h.copies hx hr hw hcs
    rw [reduce_copies hcopies] at ha
    rw [Formula.eval, hd, Outcome.ok_bind]
    exact Outcome.bind_eq_ok.mpr ⟨a, ha, he⟩
  · cases hb

theorem eval_reduce_copies_grouped {p : Partition} (h : t'.Shows xs t) (hx : xs[n]? = some x)
    (hr : x.1.isRowwise = true) (hw : x.1.isWithin 0 = true) (hp : p.owner.length = t.rows)
    (hcopies : ∀ g < p.count, r.IgnoresCopies (p.owner.count g))
    (he : ((Formula.reduce r s (.column n)).coerced u c).eval (some p) t'.columns = .ok e) :
    ∃ e', ((Formula.reduce r s x.1).coerced u c).eval (some p) t.columns = .ok e' ∧
      e'.atGroups p = e.atGroups p := by
  rw [eval_coerced] at he ⊢
  obtain ⟨a, ha, he⟩ := Outcome.bind_eq_ok.mp he
  obtain ⟨b, hb, ha⟩ := Outcome.bind_eq_ok.mp ha
  cases he
  rw [Formula.eval] at hb
  split at hb
  · rename_i cs hcs
    cases hb
    obtain ⟨d, rfl, hd⟩ := h.copies hx hr hw hcs
    rw [reduce_copies_grouped hp hcopies] at ha
    rw [Formula.eval, hd, Outcome.ok_bind]
    split at ha
    · rename_i hred
      cases ha
      rw [if_pos hred, Outcome.ok_bind]
      refine ⟨_, rfl, ?_⟩
      split
      · rfl
      · simp only [Extent.map, Extent.reduce, Extent.atGroups, List.map_replicate]
    · cases ha
  · cases hb

end aggregates

/-- Where the last column is copies of a value, every row ends with what becomes of the value. -/
theorem allTuples_copies {t : Table} (ht : t.Even) {front : List (List Deferred)} {v : Deferred}
    (hcolumns : t.columns = front ++ [List.replicate t.rows v]) {cells : List (List Cell)}
    (hc : t.columns.mapM settle = .ok cells) {s : Schema} {types : List DataType} {f : Field}
    {source : DataType}
    (hs : s.length = front.length) (hts : types.length = front.length) {size : Int}
    {bs : List Batch}
    (h : Export.batches (s ++ [f]) ((types ++ [source]).zip (cells.map fun c => [c])) size =
      .ok bs) :
    ∃ start : Nat → List Cell, (s = [] → ∀ i, start i = []) ∧
      Batch.allTuples bs = (List.range t.rows).map fun i => start i ++
        [Export.leave source f.type (cellOf v)] := by
  have hcells := mapM_settle_eq hc
  have hlen : ∀ c ∈ cells, c.length = t.rows := by
    rw [hcells]
    intro c hm
    obtain ⟨d, hd, rfl⟩ := List.mem_map.mp hm
    rw [List.length_map, ht d hd]
  have hne : s ++ [f] ≠ [] := List.append_ne_nil_of_right_ne_nil _ (List.cons_ne_nil _ _)
  rw [(Export.allTuples_batches hne hlen h).1, rowsOf, List.map_map]
  refine ⟨fun i => Export.leaveRow s types ((front.map (List.map cellOf)).map (·.getD i .null)),
    ?_, ?_⟩
  · rintro rfl i
    rfl
  · apply List.map_congr_left
    intro i hi
    have hlast : ((List.replicate t.rows v).map cellOf).getD i .null = cellOf v := by
      simp [List.getD_eq_getElem?_getD, List.mem_range.mp hi]
    rw [Function.comp_apply, hcells, hcolumns, List.map_append, List.map_append, List.map_singleton,
      List.map_singleton, hlast, Export.leaveRow_append (by simp [hs]) (by simp [hts])]

end LazyQuery.Engine
