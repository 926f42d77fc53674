import LazyQuery.Engine.Artifact
import LazyQuery.Proofs.Engine.Evenness

/-! The rows of a result in the batches that it leaves in. A schema with fields gets every row once,
in order, each cell converted by itself to the type of its field. -/
namespace LazyQuery
open Engine

namespace Batch

def tuples (b : Batch) : List (List Cell) := rowsOf b.rows b.columns

/-- What a batch consists of. -/
def parts (b : Batch) : Schema × Nat × List (List Cell) := (b.schema, b.rows, b.columns)

/-- The rows of batches, one after another. -/
def allTuples (bs : List Batch) : List (List Cell) := bs.flatMap tuples

theorem length_allTuples (bs : List Batch) : (allTuples bs).length = totalRows bs := by
  induction bs with
  | nil => rfl
  | cons b bs ih =>
    rw [allTuples, List.flatMap_cons, List.length_append, ← allTuples, ih, totalRows_cons]
    simp [tuples, rowsOf]

end Batch

namespace Export

/-- What becomes of a cell between two types; where nothing does there is a null. -/
def leave (source target : DataType) (c : Cell) : Cell :=
  if source = target ∨ c.isNull then c
  else ((source.converter target >>= fun f => f c).toOption).getD .null

def leaveColumns : Schema → List DataType → List (List Cell) → List (List Cell)
  | f :: s, t :: ts, c :: cs => c.map (leave t f.type) :: leaveColumns s ts cs
  | _, _, _ => []

/-- What becomes of a row. -/
def leaveRow : Schema → List DataType → List Cell → List Cell
  | f :: s, t :: ts, c :: row => leave t f.type c :: leaveRow s ts row
  | _, _, _ => []

theorem map_of_mapM {f : Cell → Outcome Cell} {cells out : List Cell}
    (h : cells.mapM f = .ok out) :
    out = cells.map fun c => ((f c).toOption).getD .null := by
  induction cells generalizing out with
  | nil =>
    cases h
    rfl
  | cons c cells ih =>
    rw [List.mapM_cons] at h
    obtain ⟨x, hx, h⟩ := Outcome.bind_eq_ok.mp h
    obtain ⟨xs, hxs, h⟩ := Outcome.bind_eq_ok.mp h
    cases h
    rw [List.map_cons, hx, ih hxs]
    rfl

theorem convert_eq {source target : DataType} {cells out : List Cell}
    (h : source.convert target cells = .ok out) : out = cells.map (leave source target) := by
  unfold DataType.convert at h
  split at h
  · rename_i he
    cases h
    have hl : leave source target = id := by
      funext c
      exact if_pos (.inl he)
    rw [hl, List.map_id]
  · rename_i he
    obtain ⟨f, hf, h⟩ := Outcome.bind_eq_ok.mp h
    rw [map_of_mapM h]
    apply List.map_congr_left
    intro c _
    rw [leave, hf, Outcome.ok_bind]
    by_cases hc : c.isNull = true
    · rw [if_pos hc, if_pos (.inr hc)]
      rfl
    · rw [if_neg hc, if_neg]
      rintro (h' | h')
      · exact he h'
      · exact hc h'

theorem convert_nil {source target : DataType} {cells out : List Cell}
    (h : source.convert target cells = .ok out) : source.convert target [] = .ok [] := by
  unfold DataType.convert at h ⊢
  split at h
  · rename_i he
    exact if_pos he
  · rename_i he
    obtain ⟨f, hf, -⟩ := Outcome.bind_eq_ok.mp h
    rw [if_neg he, hf]
    rfl

/-- One chunk becomes one chunk, in which nothing may be missing that the target needs. -/
theorem convertColumn_chunk {source target : DataType} {cells out : List Cell}
    (h : source.convert target cells = .ok out) :
    convertColumn source target [cells] =
      if source ≠ target && out.any target.lacks then fail .invalidData else .ok [out] := by
  have hm : [cells].mapM (source.convert target) = .ok [out] :=
    Outcome.mapM_eq_ok.mpr (.cons h .nil)
  rw [convertColumn, convert_nil h, Outcome.ok_bind, hm, Outcome.ok_bind, List.any_cons,
    List.any_nil, Bool.or_false]

theorem convertColumn_ok {source target : DataType} {chunks out : List (List Cell)}
    (h : convertColumn source target chunks = .ok out) : chunks.mapM (source.convert target) =
      .ok out := by
  obtain ⟨_, -, h⟩ := Outcome.bind_eq_ok.mp h
  obtain ⟨converted, hc, h⟩ := Outcome.bind_eq_ok.mp h
  split at h
  · cases h
  · cases h
    exact hc

theorem convertAll_eq {s : Schema} {ts : List DataType} {cells : List (List Cell)}
    {out : List (List (List Cell))}
    (h : convertAll s (ts.zip (cells.map fun c => [c])) = .ok out) :
    out = (leaveColumns s ts cells).map (fun c => [c]) ∧
    (leaveColumns s ts cells).length = s.length := by
  induction s generalizing ts cells out with
  | nil =>
    cases h
    exact ⟨rfl, rfl⟩
  | cons f s ih =>
    match ts, cells, h with
    | [], _, h => cases h
    | _ :: _, [], h => cases h
    | t :: ts, c :: cells, h =>
      obtain ⟨chunks, hchunks, h⟩ := Outcome.bind_eq_ok.mp h
      obtain ⟨rest, hrest, h⟩ := Outcome.bind_eq_ok.mp h
      cases h
      obtain ⟨c', hc', hchunks⟩ := Outcome.bind_eq_ok.mp (convertColumn_ok hchunks)
      cases hchunks
      obtain ⟨hout, hlen⟩ := ih hrest
      rw [leaveColumns, convert_eq hc', List.map_cons, hout, List.length_cons, hlen]
      exact ⟨rfl, rfl⟩

theorem leaveRow_append {s : Schema} {ts : List DataType} {row : List Cell}
    (hs : s.length = row.length)
    (ht : ts.length = row.length) (f : Field) (t : DataType) (c : Cell) :
    leaveRow (s ++ [f]) (ts ++ [t]) (row ++ [c]) = leaveRow s ts row ++ [leave t f.type c] := by
  induction row generalizing s ts with
  | nil =>
    obtain rfl := List.length_eq_zero_iff.mp hs
    obtain rfl := List.length_eq_zero_iff.mp ht
    rfl
  | cons d row ih =>
    obtain ⟨g, s, rfl⟩ := List.exists_cons_of_length_eq_add_one hs
    obtain ⟨u, ts, rfl⟩ := List.exists_cons_of_length_eq_add_one ht
    have hs : s.length = row.length := by simpa using hs
    have ht : ts.length = row.length := by simpa using ht
    rw [List.cons_append, List.cons_append, List.cons_append, leaveRow, leaveRow, ih hs ht,
      List.cons_append]

theorem length_of_mem_leaveColumns {n : Nat} {s : Schema} {ts : List DataType}
    {cells : List (List Cell)} (hn : ∀ c ∈ cells, c.length = n) :
    ∀ c ∈ leaveColumns s ts cells, c.length = n := by
  induction s generalizing ts cells with
  | nil => exact nofun
  | cons f s ih =>
    match ts, cells, hn with
    | [], _, _ => exact nofun
    | _ :: _, [], _ => exact nofun
    | t :: ts, c :: cells, hn =>
      rw [leaveColumns]
      refine List.forall_mem_cons.mpr ⟨?_, ih fun d hd => hn d (List.mem_cons_of_mem _ hd)⟩
      rw [List.length_map, hn c (List.mem_cons_self ..)]

theorem rowsOf_leaveColumns {n : Nat} {s : Schema} {ts : List DataType} {cells : List (List Cell)}
    (hn : ∀ c ∈ cells, c.length = n) :
    rowsOf n (leaveColumns s ts cells) = (rowsOf n cells).map (leaveRow s ts) := by
  unfold rowsOf
  rw [List.map_map]
  apply List.map_congr_left
  intro i hi
  have hi : i < n := List.mem_range.mp hi
  rw [Function.comp_apply]
  induction s generalizing ts cells with
  | nil => simp [leaveColumns, leaveRow]
  | cons f s ih =>
    match ts, cells, hn with
    | [], cells, _ => simp [leaveColumns, leaveRow]
    | _ :: _, [], _ => simp [leaveColumns, leaveRow]
    | t :: ts, c :: cells, hn =>
      have hc : i < c.length := (hn c (List.mem_cons_self ..)).symm ▸ hi
      rw [leaveColumns, List.map_cons, List.map_cons, leaveRow,
        ih fun d hd => hn d (List.mem_cons_of_mem _ hd)]
      simp [hc]

section cutting
variable {s : Schema} {n size : Nat} {columns : List (List Cell)}

theorem ofColumns?_parts (hs : s ≠ []) (hw : columns.length = s.length)
    (hn : ∀ c ∈ columns, c.length = n) :
    (Batch.ofColumns? s columns).map Batch.parts = some (s, n, columns) := by
  have hrows : (columns.head?.map List.length).getD 0 = n := by
    cases columns with
    | nil => exact absurd (List.length_eq_zero_iff.mp hw.symm) hs
    | cons c columns => exact hn c (List.mem_cons_self ..)
  have hc : columns.length = s.length ∧
      ∀ c ∈ columns, c.length = (columns.head?.map List.length).getD 0 :=
      ⟨hw, by rwa [hrows]⟩
  unfold Batch.ofColumns?
  dsimp only
  rw [dif_pos hc]
  exact congrArg (fun k => some (s, k, columns)) hrows

/-- A chunk is cut into batches of the schema, each of the next rows of every column. -/
theorem parts_slices (size : Nat) (hs : s ≠ []) (hw : columns.length = s.length)
    (hn : ∀ c ∈ columns, c.length = n) :
    (slices s size columns).map Batch.parts = (List.range ((n + size - 1) / size)).map fun i =>
      (s, min size (n - i * size), columns.map fun c => (c.drop (i * size)).take size) := by
  have hcount : ((columns.map (pieces size)).head?.map List.length).getD 0 =
      (n + size - 1) / size := by
    cases columns with
    | nil => exact absurd (List.length_eq_zero_iff.mp hw.symm) hs
    | cons c columns => simp [pieces, hn c (List.mem_cons_self ..)]
  unfold slices
  dsimp only
  rw [hcount, List.map_filterMap]
  refine (List.filterMap_congr fun i hi => ?_).trans (congrFun List.filterMap_eq_map _)
  have hi : i < (n + size - 1) / size := List.mem_range.mp hi
  have hcut : (columns.map (pieces size)).map (fun c => c.getD i []) =
      columns.map fun c => (c.drop (i * size)).take size := by
    rw [List.map_map]
    apply List.map_congr_left
    intro c hc
    have hic : i < (c.length + size - 1) / size := (hn c hc).symm ▸ hi
    simp [pieces, hic]
  rw [hcut, Function.comp_apply]
  apply ofColumns?_parts hs
  · rw [List.length_map, hw]
  · intro c hc
    obtain ⟨d, hd, rfl⟩ := List.mem_map.mp hc
    rw [List.length_take, List.length_drop, hn d hd]

theorem rowsOf_slice (n : Nat) (columns : List (List Cell)) (start size : Nat) :
    rowsOf (min size (n - start)) (columns.map fun c => (c.drop start).take size) =
      ((rowsOf n columns).drop start).take size := by
  apply List.ext_getElem (by simp [rowsOf])
  intro i hi hi'
  have hlt : i < size := by simp [rowsOf] at hi; omega
  simp only [rowsOf, List.getElem_map, List.getElem_range, List.getElem_take, List.getElem_drop,
    List.map_map]
  apply List.map_congr_left
  intro c _
  simp [hlt, List.getElem?_drop]

theorem schema_of_mem_slices (hs : s ≠ []) (hw : columns.length = s.length)
    (hn : ∀ c ∈ columns, c.length = n) : ∀ b ∈ slices s size columns, b.schema = s := by
  intro b hb
  have hparts : b.parts ∈ (slices s size columns).map Batch.parts := List.mem_map_of_mem hb
  rw [parts_slices size hs hw hn] at hparts
  obtain ⟨i, -, hi⟩ := List.mem_map.mp hparts
  exact (congrArg Prod.fst hi).symm

theorem allTuples_slices (hs : s ≠ []) (hw : columns.length = s.length) (hsize : 0 < size)
    (hn : ∀ c ∈ columns, c.length = n) :
    Batch.allTuples (slices s size columns) = rowsOf n columns := by
  have hlen : (rowsOf n columns).length = n := by simp [rowsOf]
  calc Batch.allTuples (slices s size columns)
      = ((slices s size columns).map Batch.parts).flatMap (fun p => rowsOf p.2.1 p.2.2) := by
        rw [List.flatMap_map]
        rfl
    _ = (pieces size (rowsOf n columns)).flatten := by
        rw [parts_slices size hs hw hn, List.flatMap_map, pieces, hlen, List.flatMap_def]
        simp only [rowsOf_slice]
    _ = rowsOf n columns := flatten_pieces hsize _

end cutting

theorem pos_of_batchSizeOf {size : Int} {n : Nat} (h : batchSizeOf size = .ok n) : 0 < n := by
  unfold batchSizeOf at h
  split at h
  · cases h
  · split at h
    · cases h
    · rename_i hs
      cases h
      have hs : ¬size ≤ 0 := by simpa using hs
      omega

theorem slices_of_isRowless {s : Schema} {size : Nat} {columns : List (List Cell)}
    (h : isRowless columns = true) : slices s size columns = [] := by
  cases columns with
  | nil => rfl
  | cons c columns =>
    obtain rfl : c = [] := List.isEmpty_iff.mp (List.all_eq_true.mp h c (List.mem_cons_self ..))
    have hnone : (size - 1) / size = 0 := by
      cases size with
      | zero => rfl
      | succ k => exact Nat.div_eq_of_lt (by omega)
    simp [slices, pieces, hnone]

theorem read_single (s : Schema) (size : Nat) (columns : List (List Cell)) :
    read s size [columns] = slices s size columns := by
  by_cases h : isRowless columns = true
  · rw [slices_of_isRowless h]
    simp [read, h]
  · simp [read, stretch, h]

theorem aligned_single {columns : List (List Cell)} (h : columns ≠ []) :
    aligned (columns.map fun c => [c]) = [columns] := by
  cases columns with
  | nil => exact absurd rfl h
  | cons c columns => simp [aligned, Function.comp_def]

theorem read_stretches_single (s : Schema) (size : Nat) (ways : List Passage)
    (columns : List (List Cell)) :
    read s size (stretches ways (columns.map fun c => [c])) = slices s size columns := by
  by_cases hne : columns = []
  · subst hne
    unfold stretches
    split
    · rfl
    · split <;> rfl
  unfold stretches
  split
  · have hjoined : (columns.map fun c => [c]).map List.flatten = columns :=
      by simp [Function.comp_def]
    rw [hjoined, read_single]
  rw [aligned_single hne]
  split
  · exact read_single ..
  by_cases h : isRowless columns = true
  · rw [slices_of_isRowless h]
    simp [h, read]
  · rw [List.filter_cons_of_pos (by simpa using h)]
    exact read_single ..

theorem allTuples_batches {s : Schema} {ts : List DataType} {cells : List (List Cell)} {n : Nat}
    {size : Int} {bs : List Batch} (hs : s ≠ []) (hn : ∀ c ∈ cells, c.length = n)
    (h : batches s (ts.zip (cells.map fun c => [c])) size = .ok bs) :
    Batch.allTuples bs = (rowsOf n cells).map (leaveRow s ts) ∧ ∀ b ∈ bs, b.schema = s := by
  obtain ⟨converted, hc, h⟩ := Outcome.bind_eq_ok.mp h
  obtain ⟨k, hk, h⟩ := Outcome.bind_eq_ok.mp h
  obtain ⟨rfl, hw⟩ := convertAll_eq hc
  cases h
  rw [read_stretches_single, ← rowsOf_leaveColumns hn]
  have heven : ∀ c ∈ leaveColumns s ts cells, c.length = n := length_of_mem_leaveColumns hn
  exact ⟨allTuples_slices hs hw (pos_of_batchSizeOf hk) heven, schema_of_mem_slices hs hw heven⟩

theorem batches_nil {columns : Chunks} {size : Int} {bs : List Batch}
    (h : batches [] columns size = .ok bs) : bs = [] := by
  obtain ⟨converted, hc, h⟩ := Outcome.bind_eq_ok.mp h
  obtain ⟨n, -, h⟩ := Outcome.bind_eq_ok.mp h
  cases hc
  cases h
  rfl

end Export

section settling

theorem mapM_settle_eq {columns : List (List Deferred)} {cells : List (List Cell)}
    (h : columns.mapM settle = .ok cells) : cells = columns.map (List.map cellOf) := by
  induction columns generalizing cells with
  | nil =>
    cases h
    rfl
  | cons c columns ih =>
    rw [List.mapM_cons] at h
    obtain ⟨x, hx, h⟩ := Outcome.bind_eq_ok.mp h
    obtain ⟨xs, hxs, h⟩ := Outcome.bind_eq_ok.mp h
    cases h
    rw [List.map_cons, settle_eq hx, ih hxs]

theorem rowsOf_settled {width : Nat} {rows : List (List Deferred)} {cells : List (List Cell)}
    (hw : ∀ row ∈ rows, row.length = width)
    (h : (Table.ofRows width rows).columns.mapM settle = .ok cells) :
    (∀ c ∈ cells, c.length = rows.length) ∧
    rowsOf rows.length cells = rows.map (List.map cellOf) := by
  have hc := mapM_settle_eq h
  constructor
  · intro c hm
    rw [hc] at hm
    obtain ⟨d, hd, rfl⟩ := List.mem_map.mp hm
    rw [List.length_map, Table.even_ofRows width rows d hd, Table.ofRows]
  · rw [hc, rowsOf]
    apply List.ext_getElem (by simp)
    intro i hi hi'
    have hlt : i < rows.length := by simpa using hi
    have hlen : rows[i].length = width := hw _ (List.getElem_mem hlt)
    apply List.ext_getElem (by simp [Table.ofRows, hlen])
    intro k hk hk'
    have hkw : k < rows[i].length := by simpa using hk'
    simp [Table.ofRows, hlt, hkw]

theorem allTuples_ofRows {s : Schema} {types : List DataType} {width : Nat}
    {rows : List (List Deferred)} {cells : List (List Cell)} {size : Int} {bs : List Batch}
    (hs : s ≠ []) (hw : ∀ row ∈ rows, row.length = width)
    (hc : (Table.ofRows width rows).columns.mapM settle = .ok cells)
    (h : Export.batches s (types.zip (cells.map fun c => [c])) size = .ok bs) :
    Batch.allTuples bs = rows.map (fun row => Export.leaveRow s types (row.map cellOf)) ∧
      ∀ b ∈ bs, b.schema = s := by
  obtain ⟨hlen, hrows⟩ := rowsOf_settled hw hc
  obtain ⟨htuples, hschema⟩ := Export.allTuples_batches hs hlen h
  refine ⟨?_, hschema⟩
  rw [htuples, hrows, List.map_map]
  rfl

theorem totalRows_batches {s : Schema} {types : List DataType} {t : Table}
    {cells : List (List Cell)} {size : Int} {bs : List Batch} (hs : s ≠ []) (ht : t.Even)
    (hc : t.columns.mapM settle = .ok cells)
    (h : Export.batches s (types.zip (cells.map fun c => [c])) size = .ok bs) :
    Batch.totalRows bs = t.rows := by
  obtain ⟨rows, hw, he⟩ := Table.exists_rows ht
  rw [he] at hc
  rw [← Batch.length_allTuples, (allTuples_ofRows hs hw hc h).1, List.length_map, he]
  rfl

end settling
end LazyQuery
