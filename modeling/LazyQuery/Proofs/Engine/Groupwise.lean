import LazyQuery.Proofs.Engine.Aggregation

/-! A table in groups, and the rows of one of its groups by themselves. The keys of the rows are
their values one by one, and the aggregates over the rows of a group are the one row that they have
for that group. -/
namespace LazyQuery
open Engine

namespace Engine

section found
variable {p : Partition} {g : Nat} {columns : List (List Deferred)}

/-- The value for a group, where there is no other than one for each group. -/
theorem Extent.AtGroup.eq_one (hg : g < p.count) {e e' : Extent} (h : e.AtGroup p g e')
    (hs : e.scope ≠ .row) : e' = .one ((e.atGroups p).getD g (.ok .null)) := by
  cases h with
  | one c => simp [Extent.atGroups, hg]
  | rows => exact absurd rfl hs
  | groups _ hc => simp [Extent.atGroups, hc]

theorem mapM_eval_atGroup {rows groups : Bool}
    (hrows : rows = true → (p.owner.length = 1 ↔ p.owner.count g = 1))
    (hgroups : groups = true → p.count = 1) (hg : g < p.count)
    (hc : ∀ c ∈ columns, c.length = p.owner.length) {fs : List Formula}
    (hf : ∀ f ∈ fs, f.dividesAlike rows groups = true ∧ f.isReducible = true ∧
      f.isScalar = true)
    {es : List Extent} (he : fs.mapM (Formula.eval (some p) columns) = .ok es) :
    fs.mapM (Formula.eval none (columns.map (p.gather g))) =
      .ok (es.map fun e => .one ((e.atGroups p).getD g (.ok .null))) := by
  rw [Outcome.mapM_eq_ok] at he ⊢
  rw [List.forall₂_map_right_iff]
  induction he with
  | nil => exact .nil
  | @cons f e fs es hfe _ ih =>
    rw [List.forall_mem_cons] at hf
    obtain ⟨⟨hd, hr, hs⟩, hf⟩ := hf
    obtain ⟨e', he', hat⟩ := eval_atGroup hrows hgroups hg hc hd hr hfe
    have hscope : e.scope ≠ .row := scope_eval hfe ▸ scope_ne_row hs
    refine .cons ?_ (ih hf)
    rw [he', hat.eq_one hg hscope]

theorem selected_one {es : List Extent} (hne : es ≠ []) (f : Extent → Deferred) (n : Nat) :
    selected n (es.map fun e => .one (f e)) = ⟨1, es.map fun e => [f e]⟩ := by
  have hemp : (es.map fun e => Extent.one (f e)).isEmpty = false := by
    obtain ⟨e, es, rfl⟩ := List.exists_cons_of_ne_nil hne
    rfl
  have hall : (es.map fun e => Extent.one (f e)).all Extent.isOne = true := by
    simp [Extent.isOne]
  rw [selected, hemp, hall]
  simp [Extent.atRows]

theorem settle_mem {cs : List Deferred} {out : List Cell} (h : settle cs = .ok out) :
    ∀ c ∈ cs, c = .ok (cellOf c) := by
  intro c hc
  obtain ⟨d, -, hd⟩ := Outcome.exists_of_forall₂ (Outcome.mapM_eq_ok.mp h) hc
  have hd : c = .ok d := hd
  rw [hd]
  rfl

theorem settle_grouped {keys : List (List Cell)} {found : List Extent} {cells : List (List Cell)}
    (h : (keys.map (List.map Except.ok) ++ found.map (Extent.atGroups p)).mapM settle = .ok cells) :
    (∀ e ∈ found, ∀ c ∈ e.atGroups p, c = .ok (cellOf c)) ∧
      cells = keys ++ found.map fun e => (e.atGroups p).map cellOf := by
  constructor
  · intro e he
    have hmem := List.mem_map_of_mem (f := Extent.atGroups p) he
    obtain ⟨out, -, hout⟩ :=
      Outcome.exists_of_forall₂ (Outcome.mapM_eq_ok.mp h) (List.mem_append_right _ hmem)
    exact settle_mem hout
  · rw [mapM_settle_eq h, List.map_append, List.map_map, List.map_map]
    congr 1
    conv_rhs => rw [← List.map_id keys]
    apply List.map_congr_left
    intro c _
    rw [Function.comp_apply, List.map_map]
    exact List.map_id _

end found

section keys
variable {n : Nat} {es : List Extent} {keys : List (List Cell)} {rows : List (List Deferred)}

theorem rowsOf_columnsOf {width : Nat} {rows : List (List Cell)}
    (h : ∀ row ∈ rows, row.length = width) :
    rowsOf rows.length (columnsOf width rows) = rows := by
  apply List.ext_getElem (by simp [rowsOf])
  intro i hi hi'
  have hlen : rows[i].length = width := h _ (List.getElem_mem hi')
  apply List.ext_getElem (by simp [rowsOf, columnsOf, hlen])
  intro k hk hk'
  simp [rowsOf, columnsOf, hi', hk']

theorem length_of_mem_keysOf (h : keysOf n es = .ok keys) :
    ∀ key ∈ keys, key.length = es.length := by
  obtain ⟨cells, hcells, h⟩ := Outcome.bind_eq_ok.mp h
  cases h
  intro key hkey
  obtain ⟨i, -, rfl⟩ := List.mem_map.mp hkey
  rw [List.length_map, ← (Outcome.mapM_eq_ok.mp hcells).length_eq]

theorem all_isOne_onRows {fs : List Formula} (hs : fs.any (!·.isScalar) = true) :
    (fs.map (Formula.onRows rows)).all Extent.isOne = false := by
  obtain ⟨f, hf, hfs⟩ := List.any_eq_true.mp hs
  rw [List.all_map, List.all_eq_false]
  refine ⟨f, hf, ?_⟩
  rw [Function.comp_apply, isOne_onRows]
  simpa using hfs

theorem all_isOne_eval {t : Table} (ht : t.Even) {fs : List Formula}
    (hr : ∀ f ∈ fs, f.isRowwise = true)
    (hs : fs.any (!·.isScalar) = true) (h : fs.mapM (Formula.eval none t.columns) = .ok es) :
    es.all Extent.isOne = false := by
  obtain ⟨rows, -, he⟩ := Table.exists_rows ht
  rw [he, mapM_eval_ofRows hr] at h
  split at h
  · cases h
    exact all_isOne_onRows hs
  · cases h

theorem keysOf_onRows {fs : List Formula} (hs : fs.any (!·.isScalar) = true)
    (h : keysOf rows.length (fs.map (Formula.onRows rows)) = .ok keys) :
    keys = rows.map fun row => fs.map fun f => cellOf (f.atRow (rows.length == 1) row) := by
  rw [keysOf, all_isOne_onRows hs, if_neg Bool.false_ne_true] at h
  obtain ⟨cells, hcells, h⟩ := Outcome.bind_eq_ok.mp h
  cases h
  have hsettled : (fs.map fun f => rows.map fun row => f.atRow (rows.length == 1) row).mapM settle =
      .ok cells := by
    rw [Outcome.mapM_eq_ok] at hcells ⊢
    rw [List.forall₂_map_left_iff] at hcells ⊢
    exact hcells.imp fun f c hc => by rwa [atRows_onRows] at hc
  rw [mapM_settle_eq hsettled, rowsOf, List.map_map]
  apply List.ext_getElem (by simp)
  intro i hi hi'
  have hlt : i < rows.length := by simpa using hi
  simp [Function.comp_def, hlt]

end keys

end Engine

namespace Opened
variable {o : Opened} {ks xs : List (Formula × ColumnType)} {s : Schema} {t : Table}
    {p : Partition} {g : Nat}

/-- The aggregates over the rows of one group are those of the group, in every table in which the
formulas have the values that they have at those rows. -/
theorem run_select_group {rows groups : Bool} {t' : Table}
    (hrows : rows = true → (p.owner.length = 1 ↔ p.owner.count g = 1))
    (hgroups : groups = true → p.count = 1) (hg : g < p.count)
    (hc : ∀ c ∈ t.columns, c.length = p.owner.length)
    (hf : ∀ x ∈ xs, x.1.dividesAlike rows groups = true ∧ x.1.isReducible = true ∧
      x.1.isScalar = true)
    (hne : xs ≠ []) {found : List Extent}
    (hfound : (xs.map (·.1)).mapM (Formula.eval (some p) t.columns) = .ok found)
    (hsame : ∀ x ∈ xs, x.1.eval none t'.columns = x.1.eval none (t.columns.map (p.gather g)))
    (ho : o.run [] none = some t') :
    (o.select xs s).run [] none =
      some ⟨1, found.map fun e => [(e.atGroups p).getD g (.ok .null)]⟩ := by
  have hfs : ∀ f ∈ xs.map (·.1),
      f.dividesAlike rows groups = true ∧ f.isReducible = true ∧ f.isScalar = true := by
    simpa using hf
  have hfne : found ≠ [] := by
    rintro rfl
    have hlen := (Outcome.mapM_eq_ok.mp hfound).length_eq
    rw [List.length_map] at hlen
    exact hne (List.length_eq_zero_iff.mp hlen)
  have hvalues : (xs.map (·.1)).mapM (Formula.eval none t'.columns) =
      .ok (found.map fun e => .one ((e.atGroups p).getD g (.ok .null))) := by
    have hgathered := mapM_eval_atGroup hrows hgroups hg hc hfs hfound
    rw [Outcome.mapM_eq_ok, List.forall₂_map_left_iff] at hgathered ⊢
    exact ((List.forall₂_and_left _ _).mpr ⟨hsame, hgathered⟩).imp fun _ _ h => h.1.trans h.2
  rw [run_select, passed_none, ho, Option.bind_some, hvalues, Outcome.toOption_ok, Option.map_some,
    selected_one hfne, Table.cut_none]

theorem run_group_eq_some {tg : Table} :
    (o.group ks xs s).run [] none = some tg ↔ ∃ t es keys found, o.run [] none = some t ∧
      (ks.map (·.1)).mapM (Formula.eval none t.columns) = .ok es ∧
      keysOf t.rows es = .ok keys ∧
      (xs.map (·.1)).mapM (Formula.eval (some (groupsOf t.rows es keys)) t.columns) = .ok found ∧
      tg = t.grouped ks.length es keys found := by
  constructor
  · intro h
    obtain ⟨t, ht, h⟩ := Option.bind_eq_some_iff.mp h
    obtain ⟨es, hes, h⟩ := Outcome.bind_eq_ok.mp (Outcome.toOption_eq_some.mp h)
    obtain ⟨keys, hkeys, h⟩ := Outcome.bind_eq_ok.mp h
    obtain ⟨found, hfound, h⟩ := Outcome.bind_eq_ok.mp h
    cases h
    exact ⟨t, es, keys, found, ht, hes, hkeys, hfound, rfl⟩
  · rintro ⟨t, es, keys, found, ht, hes, hkeys, hfound, rfl⟩
    rw [group]
    dsimp only
    rw [ht, Option.bind_some, hes, Outcome.ok_bind, hkeys, Outcome.ok_bind, hfound]
    rfl

theorem types_group (o : Opened) (ks xs : List (Formula × ColumnType)) (s : Schema) :
    (o.group ks xs s).header.map (·.2) = ks.map (·.2) ++ xs.map fun x => groupedType x.1 x.2 := by
  have hheader : (o.group ks xs s).header = (numbered 0 ks).map (fun k => (k.1, k.2.2)) ++
    (numbered ks.length xs).map fun x => (x.1, groupedType x.2.1 x.2.2) := rfl
  have hk : ((numbered 0 ks).map fun k => (k.1, k.2.2)).map (·.2) = ks.map (·.2) := by
    conv_rhs => rw [← columns_numbered 0 ks, List.map_map]
    rw [List.map_map]
    rfl
  have hx : ((numbered ks.length xs).map fun x => (x.1, groupedType x.2.1 x.2.2)).map (·.2) =
      xs.map fun x => groupedType x.1 x.2 := by
    conv_rhs => rw [← columns_numbered ks.length xs, List.map_map]
    rw [List.map_map]
    rfl
  rw [hheader, List.map_append, hk, hx]

theorem exported_group (hs : ∀ x ∈ xs, x.1.isScalar = true) :
    (o.group ks xs s).header.map (·.2.exported) = ks.map (·.2.exported) ++
      xs.map (·.2.exported) := by
  have hmap := congrArg (List.map ColumnType.exported) (types_group o ks xs s)
  rw [List.map_map, List.map_append, List.map_map, List.map_map] at hmap
  refine hmap.trans (congrArg _ (List.map_congr_left fun x hx => ?_))
  rw [Function.comp_apply, groupedType, if_pos (hs x hx)]

end Opened

end LazyQuery
