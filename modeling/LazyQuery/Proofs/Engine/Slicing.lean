import LazyQuery.Proofs.Engine.Leaving
import Mathlib.Algebra.GroupWithZero.Nat
import Mathlib.Data.List.DropRight

/-! The sizes of the batches that columns in chunks leave in. Where every column is computed into
one chunk the rows are cut without regard to chunks; where not, no batch reaches over the end of a
chunk, and a chunk without rows is seen only where a column has kept it. -/
namespace LazyQuery.Export

/-- The sizes of the batches of so many rows: as many of the full size as fit, then the rest. -/
def sizesOf (size rows : Nat) : List Nat :=
  List.replicate (rows / size) size ++ if rows % size = 0 then [] else [rows % size]

/-- The sizes of the batches of stretches of rows, up to the last row. A stretch without rows before
that counts with one batch. -/
def sizesUpTo (size : Nat) (lens : List Nat) : List Nat :=
  (lens.rdropWhile (· = 0)).flatMap fun n => if n = 0 then [0] else sizesOf size n

section sizes
variable {size : Nat}

theorem sizesOf_zero (size : Nat) : sizesOf size 0 = [] := by
  rw [sizesOf, Nat.zero_div, Nat.zero_mod]
  rfl

theorem le_of_mem_sizesOf (hsize : 0 < size) {n m : Nat} (h : m ∈ sizesOf size n) :
    1 ≤ m ∧ m ≤ size := by
  rw [sizesOf, List.mem_append, List.mem_replicate] at h
  rcases h with ⟨-, rfl⟩ | h
  · exact ⟨hsize, le_rfl⟩
  · split at h
    · cases h
    · obtain rfl := List.mem_singleton.mp h
      have hlt := Nat.mod_lt n hsize
      omega

theorem map_min_eq_sizesOf (hsize : 0 < size) (n : Nat) :
    ((List.range ((n + size - 1) / size)).map fun i => min size (n - i * size)) =
      sizesOf size n := by
  have hn : size * (n / size) + n % size = n := Nat.div_add_mod n size
  have hmul : ∀ i, i * size = size * i := fun i => Nat.mul_comm ..
  have hfull : ((List.range (n / size)).map fun i => min size (n - i * size)) =
      List.replicate (n / size) size := by
    rw [List.eq_replicate_iff, List.length_map, List.length_range]
    refine ⟨rfl, fun m hm => ?_⟩
    obtain ⟨i, hi, rfl⟩ := List.mem_map.mp hm
    have hle : size * (i + 1) ≤ size * (n / size) := Nat.mul_le_mul_left _ (List.mem_range.mp hi)
    rw [Nat.mul_succ] at hle
    rw [hmul]
    omega
  unfold sizesOf
  by_cases hrest : n % size = 0
  · have hcount : (n + size - 1) / size = n / size := by
      refine Nat.div_eq_of_lt_le ?_ ?_ <;> rw [Nat.mul_comm]
      · omega
      · rw [Nat.mul_succ]
        omega
    rw [hcount, hfull, if_pos hrest, List.append_nil]
  · have hlt := Nat.mod_lt n hsize
    have hcount : (n + size - 1) / size = n / size + 1 := by
      refine Nat.div_eq_of_lt_le ?_ ?_ <;> rw [Nat.mul_comm]
      · rw [Nat.mul_succ]
        omega
      · rw [Nat.mul_succ, Nat.mul_succ]
        omega
    rw [hcount, List.range_succ, List.map_append, hfull, if_neg hrest, List.map_singleton, hmul]
    congr 2
    omega

theorem sizesUpTo_cons (size n : Nat) (lens : List Nat) :
    sizesUpTo size (n :: lens) = if ∀ m ∈ n :: lens, m = 0 then [] else
      (if n = 0 then [0] else sizesOf size n) ++ sizesUpTo size lens := by
  have hdrop : (n :: lens).rdropWhile (· = 0) =
      if ∀ m ∈ n :: lens, m = 0 then [] else n :: lens.rdropWhile (· = 0) := by
    split
    · rename_i hall
      exact List.rdropWhile_eq_nil_iff.mpr (by simpa using hall)
    · rename_i hall
      rw [List.rdropWhile, List.reverse_cons, List.dropWhile_append]
      split
      · rename_i hempty
        have hzero : ∀ m ∈ lens, m = 0 := by
          simpa [List.dropWhile_eq_nil_iff] using hempty
        have hn : n ≠ 0 := fun hn => hall (List.forall_mem_cons.mpr ⟨hn, hzero⟩)
        have hnil : lens.rdropWhile (· = 0) = [] :=
          List.rdropWhile_eq_nil_iff.mpr (by simpa using hzero)
        rw [hnil]
        simp [hn]
      · rw [List.reverse_append]
        rfl
  rw [sizesUpTo, hdrop]
  split
  · rfl
  · rfl

theorem sizesUpTo_of_pos {lens : List Nat} (h : ∀ n ∈ lens, n ≠ 0) :
    sizesUpTo size lens = lens.flatMap (sizesOf size) := by
  have hself : lens.rdropWhile (· = 0) = lens := by
    rw [List.rdropWhile_eq_self_iff]
    intro hne
    simpa using h _ (List.getLast_mem hne)
  rw [sizesUpTo, hself, List.flatMap_def, List.flatMap_def]
  congr 1
  exact List.map_congr_left fun n hn => if_neg (h n hn)

end sizes

/-- A chunk with a column for each field, all of `n` rows. -/
def Fits (s : Schema) (chunk : List (List Cell)) (n : Nat) : Prop :=
  chunk.length = s.length ∧ ∀ c ∈ chunk, c.length = n

def columnOf (bs : List Batch) (k : Nat) : List Cell := bs.flatMap fun b => b.columns.getD k []

section reading
variable {s : Schema} {size n : Nat} {chunk : List (List Cell)} {chunks : List (List (List Cell))}
  {lens : List Nat}

theorem isRowless_iff (hs : s ≠ []) (h : Fits s chunk n) : isRowless chunk = true ↔ n = 0 := by
  rw [isRowless, List.all_eq_true]
  constructor
  · intro hall
    obtain ⟨c, hc⟩ : ∃ c, c ∈ chunk :=
      List.exists_mem_of_length_pos (h.1 ▸ List.length_pos_iff.mpr hs)
    rw [← h.2 c hc, List.isEmpty_iff.mp (hall c hc)]
    rfl
  · rintro rfl c hc
    exact List.isEmpty_iff.mpr (List.length_eq_zero_iff.mp (h.2 c hc))

theorem all_isRowless_iff (hs : s ≠ []) (h : List.Forall₂ (Fits s) chunks lens) :
    chunks.all isRowless = true ↔ ∀ m ∈ lens, m = 0 := by
  induction h with
  | nil => exact ⟨fun _ => nofun, fun _ => rfl⟩
  | cons hfits _ ih =>
    rw [List.all_cons, Bool.and_eq_true, isRowless_iff hs hfits, ih, List.forall_mem_cons]

theorem getD_eq_nil (hempty : isRowless chunk = true) (k : Nat) : chunk.getD k [] = [] := by
  rw [List.getD_eq_getElem?_getD]
  cases hk : chunk[k]? with
  | none => rfl
  | some c => exact List.isEmpty_iff.mp (List.all_eq_true.mp hempty c (List.mem_of_getElem? hk))

/-- The cells of a column in a chunk come back from the batches that the chunk is cut into. -/
theorem flatMap_slice (hsize : 0 < size) (h : Fits s chunk n) (k : Nat) :
    ((List.range ((n + size - 1) / size)).flatMap fun i =>
      (chunk.map fun c => (c.drop (i * size)).take size).getD k []) = chunk.getD k [] := by
  simp only [List.getD_eq_getElem?_getD, List.getElem?_map]
  cases hk : chunk[k]? with
  | none => simp
  | some c =>
    rw [← h.2 c (List.mem_of_getElem? hk)]
    exact List.flatMap_def.trans (flatten_pieces hsize c)

/-- What is read of one stretch: batches of the schema, in these sizes, with every
cell in its place. -/
theorem stretch_eq (hs : s ≠ []) (hsize : 0 < size) (h : Fits s chunk n) :
    (∀ b ∈ stretch s size chunk, b.schema = s) ∧
      (stretch s size chunk).map (·.rows) = (if n = 0 then [0] else sizesOf size n) ∧
      ∀ k, columnOf (stretch s size chunk) k = chunk.getD k [] := by
  unfold stretch
  by_cases hempty : isRowless chunk = true
  · obtain ⟨b, hb, hparts⟩ := Option.map_eq_some_iff.mp (ofColumns?_parts hs h.1 h.2)
    obtain ⟨hschema, hrows, hcolumns⟩ : b.schema = s ∧ b.rows = n ∧ b.columns = chunk := by
      simpa [Batch.parts] using hparts
    have hn := (isRowless_iff hs h).mp hempty
    rw [if_pos hempty, if_pos hn, hb, Option.toList_some]
    exact ⟨by simpa using hschema, by simpa [hn] using hrows, by simp [columnOf, hcolumns]⟩
  · have hn : n ≠ 0 := fun hn => hempty ((isRowless_iff hs h).mpr hn)
    have hparts := parts_slices size hs h.1 h.2
    have hrows := congrArg (List.map (·.2.1)) hparts
    have hcolumns := fun k => congrArg (List.flatMap (·.2.2.getD k [])) hparts
    simp only [List.map_map, List.flatMap_map] at hrows hcolumns
    rw [if_neg hempty, if_neg hn]
    exact ⟨schema_of_mem_slices hs h.1 h.2, hrows.trans (map_min_eq_sizesOf hsize n),
      fun k => (hcolumns k).trans (flatMap_slice hsize h k)⟩

/-- What is read of stretches one after another, up to the last row. -/
theorem read_eq (hs : s ≠ []) (hsize : 0 < size) (h : List.Forall₂ (Fits s) chunks lens) :
    (∀ b ∈ read s size chunks, b.schema = s) ∧
      (read s size chunks).map (·.rows) = sizesUpTo size lens ∧
      ∀ k, columnOf (read s size chunks) k = chunks.flatMap fun chunk => chunk.getD k [] := by
  induction h with
  | nil => exact ⟨fun b hb => absurd hb List.not_mem_nil, rfl, fun _ => rfl⟩
  | @cons chunk n rest lens hfits hrest ih =>
    obtain ⟨hschema, hrows, hcolumn⟩ := ih
    obtain ⟨hschema', hrows', hcolumn'⟩ := stretch_eq hs hsize hfits
    have hall := all_isRowless_iff hs (.cons hfits hrest)
    rw [read, sizesUpTo_cons]
    by_cases hdone : (chunk :: rest).all isRowless = true
    · rw [if_pos hdone, if_pos (hall.mp hdone)]
      refine ⟨fun b hb => absurd hb List.not_mem_nil, rfl, fun k =>
        (List.flatMap_eq_nil_iff.mpr fun c hc => ?_).symm⟩
      exact getD_eq_nil (List.all_eq_true.mp hdone c hc) k
    · rw [if_neg hdone, if_neg fun hz => hdone (hall.mpr hz), List.map_append, hrows, hrows']
      refine ⟨fun b hb => (List.mem_append.mp hb).elim (hschema' b) (hschema b), rfl,
        fun k => ?_⟩
      rw [columnOf, List.flatMap_append, List.flatMap_cons, ← hcolumn', ← hcolumn]
      rfl

end reading

section layout
variable {s : Schema} {columns : List (List (List Cell))} {lens : List Nat}

theorem length_aligned (hne : columns ≠ []) (hl : ∀ c ∈ columns, c.map List.length = lens) :
    aligned columns = (List.range lens.length).map fun i => columns.map fun c => c.getD i [] := by
  cases columns with
  | nil => exact absurd rfl hne
  | cons c columns =>
    rw [← hl c (List.mem_cons_self ..), List.length_map, aligned, List.head?_cons,
      Option.map_some, Option.getD_some]

theorem fits_aligned (hne : columns ≠ []) (hw : columns.length = s.length)
    (hl : ∀ c ∈ columns, c.map List.length = lens) : List.Forall₂ (Fits s)
    (aligned columns) lens := by
  rw [length_aligned hne hl, List.forall₂_iff_get]
  refine ⟨by simp, fun i _ hi => ?_⟩
  rw [List.get_eq_getElem, List.get_eq_getElem, List.getElem_map, List.getElem_range]
  refine ⟨by rw [List.length_map, hw], fun c hc => ?_⟩
  obtain ⟨d, hd, rfl⟩ := List.mem_map.mp hc
  simp [← hl d hd] at hi ⊢
  simp [hi]

theorem flatMap_aligned (hne : columns ≠ []) (hl : ∀ c ∈ columns, c.map List.length = lens)
    (k : Nat) :
    ((aligned columns).flatMap fun chunk => chunk.getD k []) = (columns.getD k []).flatten := by
  rw [length_aligned hne hl, List.flatMap_map]
  simp only [List.getD_eq_getElem?_getD, List.getElem?_map]
  cases hk : columns[k]? with
  | none => simp
  | some c =>
    have hlen : lens.length = c.length := by
      rw [← hl c (List.mem_of_getElem? hk), List.length_map]
    rw [hlen, List.flatMap_def]
    congr 1
    apply List.ext_getElem (by simp)
    intro i _ hi
    have hi : i < c.length := hi
    simp [hi]

def spans (ways : List Passage) (lens : List Nat) : List Nat :=
  if ways.all (· = .joined) then [lens.sum]
  else if ways.any (· = .kept) then lens
  else lens.filter (· ≠ 0)

theorem sizesUpTo_spans (size : Nat) (ways : List Passage) (lens : List Nat) :
    sizesUpTo size (spans ways lens) =
      if ways.all (· = .joined) then sizesOf size lens.sum
      else if ways.any (· = .kept) then sizesUpTo size lens
      else lens.flatMap (sizesOf size) := by
  unfold spans
  split
  · by_cases hz : lens.sum = 0
    · rw [hz, sizesUpTo_cons, if_pos (by simp), sizesOf_zero]
    · rw [sizesUpTo_of_pos (by simpa using hz), List.flatMap_singleton]
  split
  · rfl
  · rw [sizesUpTo_of_pos (by simp)]
    induction lens with
    | nil => rfl
    | cons n lens ih =>
      by_cases hn : n = 0
      · rw [hn, List.filter_cons_of_neg (by simp), ih, List.flatMap_cons, sizesOf_zero,
          List.nil_append]
      · rw [List.filter_cons_of_pos (by simpa using hn), List.flatMap_cons, List.flatMap_cons, ih]

theorem sizesUpTo_spans_rowless (size : Nat) (ways : List Passage) {lens : List Nat}
    (h : lens.sum = 0) : sizesUpTo size (spans ways lens) = [] := by
  have hzero : ∀ n ∈ lens, n = 0 := List.sum_eq_zero_iff_forall_eq_nat.mp h
  rw [sizesUpTo_spans]
  split
  · rw [h, sizesOf_zero]
  split
  · rw [sizesUpTo, List.rdropWhile_eq_nil_iff.mpr (by simpa using hzero), List.flatMap_nil]
  · exact List.flatMap_eq_nil_iff.mpr fun n hn => hzero n hn ▸ sizesOf_zero size

theorem mem_sizesUpTo_spans {size m : Nat} (hsize : 0 < size) {ways : List Passage}
    (h : m ∈ sizesUpTo size (spans ways lens)) :
    m ≤ size ∧ (m = 0 → .kept ∈ ways ∧ 0 ∈ lens) := by
  have hpos : ∀ {n}, m ∈ sizesOf size n → m ≤ size ∧
      (m = 0 → Passage.kept ∈ ways ∧ 0 ∈ lens) := by
    intro n hm
    obtain ⟨hone, hle⟩ := le_of_mem_sizesOf hsize hm
    exact ⟨hle, fun hz => by omega⟩
  rw [sizesUpTo_spans] at h
  split at h
  · exact hpos h
  split at h
  · rename_i hkept
    obtain ⟨n, hn, hm⟩ := List.mem_flatMap.mp h
    split at hm
    · rename_i hz
      obtain rfl := List.mem_singleton.mp hm
      exact ⟨Nat.zero_le _,
        fun _ => ⟨by simpa using hkept, hz ▸ (List.rdropWhile_prefix _ _).subset hn⟩⟩
    · exact hpos hm
  · obtain ⟨n, -, hm⟩ := List.mem_flatMap.mp h
    exact hpos hm

theorem fits_stretches (hs : s ≠ []) (ways : List Passage) (hw : columns.length = s.length)
    (hl : ∀ c ∈ columns, c.map List.length = lens) :
    List.Forall₂ (Fits s) (stretches ways columns) (spans ways lens) := by
  have hne : columns ≠ [] := fun h => hs (List.length_eq_zero_iff.mp (hw.symm.trans (h ▸ rfl)))
  have haligned := fits_aligned hne hw hl
  unfold stretches spans
  split
  · refine .cons ⟨by rw [List.length_map, hw], fun c hc => ?_⟩ .nil
    obtain ⟨d, hd, rfl⟩ := List.mem_map.mp hc
    rw [List.length_flatten, hl d hd]
  split
  · exact haligned
  · refine List.rel_filter (fun chunk n h => ?_) haligned
    simpa using (isRowless_iff hs h).not

theorem flatMap_stretches (hne : columns ≠ []) (ways : List Passage)
    (hl : ∀ c ∈ columns, c.map List.length = lens) (k : Nat) :
    ((stretches ways columns).flatMap fun chunk => chunk.getD k []) =
      (columns.getD k []).flatten := by
  unfold stretches
  split
  · simp only [List.flatMap_cons, List.flatMap_nil, List.append_nil, List.getD_eq_getElem?_getD,
      List.getElem?_map]
    cases columns[k]? <;> rfl
  split
  · exact flatMap_aligned hne hl k
  · rw [← flatMap_aligned hne hl k]
    induction aligned columns with
    | nil => rfl
    | cons chunk rest ih =>
      by_cases hempty : isRowless chunk = true
      · rw [List.filter_cons_of_neg (by simpa using hempty), List.flatMap_cons, getD_eq_nil hempty,
          ih]
        rfl
      · rw [List.filter_cons_of_pos (by simpa using hempty), List.flatMap_cons, List.flatMap_cons,
          ih]

end layout

section converting
variable {source target : DataType} {chunks out : List (List Cell)}

theorem convert_flatten (hnil : source.convert target [] = .ok [])
    (h : List.Forall₂ (fun c d => source.convert target c = .ok d) chunks out) :
    source.convert target chunks.flatten = .ok out.flatten := by
  unfold DataType.convert at hnil h ⊢
  by_cases he : source = target
  · simp only [if_pos he, Except.ok.injEq, List.forall₂_eq_eq_eq] at h ⊢
    rw [h]
  · obtain ⟨f, hf, -⟩ := Outcome.bind_eq_ok.mp ((if_neg he).symm.trans hnil)
    simp only [if_neg he, hf, Outcome.ok_bind, Outcome.mapM_eq_ok] at h ⊢
    exact List.rel_flatten h

/-- A column that is converted chunk by chunk is converted as a whole, and keeps its layout. -/
theorem convertColumn_whole (h : convertColumn source target chunks = .ok out) :
    source.convert target chunks.flatten = .ok out.flatten ∧
      out.map List.length = chunks.map List.length := by
  obtain ⟨_, hnil, -⟩ := Outcome.bind_eq_ok.mp h
  have hchunks := Outcome.mapM_eq_ok.mp (convertColumn_ok h)
  refine ⟨convert_flatten (convert_nil hnil) hchunks,
    (Outcome.map_eq_of_forall₂ ?_ hchunks).symm⟩
  intro c d hcd
  rw [convert_eq hcd, List.length_map]

theorem convertAll_eq_mapM {s : Schema} {columns : Chunks} (hw : s.length ≤ columns.length) :
    convertAll s columns = (s.zip columns).mapM fun x => convertColumn x.2.1 x.1.type x.2.2 := by
  induction s generalizing columns with
  | nil => rfl
  | cons f s ih =>
    cases columns with
    | nil => cases hw
    | cons c columns =>
      rw [convertAll, List.zip_cons_cons, List.mapM_cons, ih (Nat.le_of_succ_le_succ hw)]
      rfl

theorem layout_convertAll {s : Schema} {columns : Chunks} {lens : List Nat}
    {converted : List (List (List Cell))} (hw : s.length ≤ columns.length)
    (hl : ∀ c ∈ columns, c.2.map List.length = lens)
    (h : convertAll s columns = .ok converted) :
    converted.length = s.length ∧ (∀ c ∈ converted, c.map List.length = lens) ∧
      List.Forall₂ (fun x cells => x.2.1.convert x.1.type x.2.2.flatten = .ok cells)
        (s.zip columns) (converted.map List.flatten) := by
  rw [convertAll_eq_mapM hw] at h
  have hall := Outcome.mapM_eq_ok.mp h
  have hlen : (s.zip columns).length = s.length := by
    rw [List.length_zip, Nat.min_eq_left hw]
  refine ⟨hall.length_eq.symm.trans hlen, fun c hc => ?_, ?_⟩
  · obtain ⟨x, hx, hxc⟩ := Outcome.exists_of_forall₂ hall.flip hc
    rw [(convertColumn_whole hxc).2]
    exact hl _ (List.of_mem_zip hx).2
  · exact List.forall₂_map_right_iff.mpr (hall.imp fun _ _ hxc => (convertColumn_whole hxc).1)

end converting

theorem batchSizeOf_eq_ok {i : Int} {n : Nat} :
    batchSizeOf i = .ok n ↔ 1 ≤ i ∧ i < 2 ^ 63 ∧ n = i.toNat := by
  unfold batchSizeOf maxBatchSize
  split
  · rename_i h
    simp only [Bool.or_eq_true, decide_eq_true_eq] at h
    refine ⟨nofun, fun ⟨hlow, hhigh, _⟩ => ?_⟩
    omega
  · rename_i h
    simp only [Bool.or_eq_true, decide_eq_true_eq] at h
    split
    · refine ⟨nofun, fun ⟨hlow, _⟩ => ?_⟩
      omega
    · rw [Except.ok.injEq]
      omega

section cutting
variable {s : Schema} {columns : Chunks} {lens : List Nat} {b : Nat}

theorem exists_batches_iff {size : Int} :
    (∃ bs, batches s columns size = .ok bs) ↔
      (∃ converted, convertAll s columns = .ok converted) ∧ 1 ≤ size ∧ size < 2 ^ 63 := by
  constructor
  · rintro ⟨bs, h⟩
    obtain ⟨converted, hc, h⟩ := Outcome.bind_eq_ok.mp h
    obtain ⟨n, hn, -⟩ := Outcome.bind_eq_ok.mp h
    obtain ⟨hlow, hhigh, -⟩ := batchSizeOf_eq_ok.mp hn
    exact ⟨⟨converted, hc⟩, hlow, hhigh⟩
  · rintro ⟨⟨converted, hc⟩, hlow, hhigh⟩
    have hn : batchSizeOf size = .ok size.toNat := batchSizeOf_eq_ok.mpr ⟨hlow, hhigh, rfl⟩
    exact ⟨_,
      Outcome.bind_eq_ok.mpr ⟨converted, hc, Outcome.bind_eq_ok.mpr ⟨_, hn, rfl⟩⟩⟩

theorem batches_error_iff (hw : s.length ≤ columns.length) (hb : 1 ≤ b) :
    (∃ e, batches s columns b = .error e) ↔
      2 ^ 63 ≤ b ∨ ∃ x ∈ s.zip columns, ∃ e, convertColumn x.2.1 x.1.type x.2.2 =
        .error e := by
  have hok : (∃ bs, batches s columns b = .ok bs) ↔
      (∀ x ∈ s.zip columns, ∃ c, convertColumn x.2.1 x.1.type x.2.2 = .ok c) ∧
      b < 2 ^ 63 := by
    rw [exists_batches_iff, convertAll_eq_mapM hw, Outcome.exists_mapM_eq_ok]
    refine and_congr_right fun _ => ⟨fun h => by exact_mod_cast h.2, fun h => ⟨?_, ?_⟩⟩
    · exact_mod_cast hb
    · exact_mod_cast h
  rw [Outcome.exists_error_iff, hok, not_and_or, Nat.not_lt, or_comm]
  simp only [Outcome.exists_error_iff, not_forall, exists_prop]

/-- What leaves: batches of the schema, of these sizes, that hold each column
converted as a whole. -/
theorem batches_cut (hs : s ≠ []) (hw : s.length ≤ columns.length)
    (hl : ∀ c ∈ columns, c.2.map List.length = lens) (hb : 1 ≤ b) {bs : List Batch}
    (h : batches s columns b = .ok bs) :
    (∀ batch ∈ bs, batch.schema = s) ∧
      bs.map (·.rows) = sizesUpTo b (spans (passages s columns) lens) ∧
      List.Forall₂ (fun x cells => x.2.1.convert x.1.type x.2.2.flatten = .ok cells)
        (s.zip columns) (Batch.stack s.length bs) := by
  obtain ⟨converted, hc, hrest⟩ := Outcome.bind_eq_ok.mp h
  obtain ⟨n, hn, hread⟩ := Outcome.bind_eq_ok.mp hrest
  obtain rfl : n = b := (batchSizeOf_eq_ok.mp hn).2.2.trans (Int.toNat_natCast b)
  obtain rfl := Except.ok.inj hread
  obtain ⟨hlen, hlayout, hcells⟩ := layout_convertAll hw hl hc
  have hne : converted ≠ [] :=
    fun h => hs (List.length_eq_zero_iff.mp (hlen.symm.trans (h ▸ rfl)))
  obtain ⟨hschema, hrows, hcolumns⟩ :=
    read_eq hs hb (fits_stretches hs (passages s columns) hlen hlayout)
  refine ⟨hschema, hrows, ?_⟩
  have hstack : Batch.stack s.length (read s n (stretches (passages s columns) converted)) =
      converted.map List.flatten := by
    rw [← hlen, Batch.stack]
    apply List.ext_getElem (by simp)
    intro k hk _
    have hk : k < converted.length := by simpa using hk
    rw [List.getElem_map, List.getElem_range, List.getElem_map]
    refine (hcolumns k).trans ((flatMap_stretches hne _ hlayout k).trans ?_)
    simp [hk]
  rw [hstack]
  exact hcells

end cutting

/-- A table whose columns have one layout of chunks leaves under a schema unless a column has no
conversion or the size does not fit. The batches have the schema, the cells of the columns
converted as a whole, and at most the size in rows: cut without regard to chunks where all columns
are joined, and chunk by chunk where not, a chunk without rows in front of a row being seen where
a column is kept. -/
theorem batches_sliced {s : Schema} {columns : Chunks} {lens : List Nat} {b : Nat} (hs : s ≠ [])
    (hw : s.length ≤ columns.length) (hl : ∀ c ∈ columns, c.2.map List.length = lens)
    (hb : 1 ≤ b) :
    ((∃ e, batches s columns b = .error e) ↔
      2 ^ 63 ≤ b ∨
        ∃ x ∈ s.zip columns, ∃ e, convertColumn x.2.1 x.1.type x.2.2 = .error e) ∧
    ∀ bs, batches s columns b = .ok bs →
      (∀ batch ∈ bs, batch.schema = s ∧ batch.rows ≤ b ∧
        (batch.rows = 0 → .kept ∈ passages s columns ∧ 0 ∈ lens)) ∧
      List.Forall₂ (fun x cells => x.2.1.convert x.1.type x.2.2.flatten = .ok cells)
        (s.zip columns) (Batch.stack s.length bs) ∧
      ((∀ w ∈ passages s columns, w = .joined) → bs.map (·.rows) = sizesOf b lens.sum) ∧
      (.kept ∈ passages s columns → bs.map (·.rows) = sizesUpTo b lens) ∧
      (.kept ∉ passages s columns → .parted ∈ passages s columns →
        bs.map (·.rows) = lens.flatMap (sizesOf b)) ∧
      (lens.sum = 0 → bs = []) := by
  refine ⟨batches_error_iff hw hb, fun bs h => ?_⟩
  obtain ⟨hschema, hrows, hcells⟩ := batches_cut hs hw hl hb h
  have hsizes := sizesUpTo_spans b (passages s columns) lens
  refine ⟨fun batch hbatch => ⟨hschema batch hbatch, ?_⟩, hcells, fun hall => ?_,
    fun hkept => ?_, fun hkept hparted => ?_, fun hz => ?_⟩
  · have hmem : batch.rows ∈ bs.map (·.rows) := List.mem_map_of_mem hbatch
    rw [hrows] at hmem
    exact mem_sizesUpTo_spans hb hmem
  · rw [hrows, hsizes, if_pos (by simpa using hall)]
  · rw [hrows, hsizes, if_neg, if_pos (by simpa using hkept)]
    intro hall
    have hkept' := List.all_eq_true.mp hall _ hkept
    cases of_decide_eq_true hkept'
  · rw [hrows, hsizes, if_neg, if_neg (by simpa using hkept)]
    intro hall
    have hparted' := List.all_eq_true.mp hall _ hparted
    cases of_decide_eq_true hparted'
  · rw [← List.map_eq_nil_iff, hrows, sizesUpTo_spans_rowless b _ hz]

/-- A column that is kept beside one that is joined. -/
theorem batches_sliced_kept :
    ∃ bs, batches [⟨"n", .int64, true⟩, ⟨"m", .leaf (.integer .int8), true⟩]
        [(.int64, [[], [.int 1, .null, .int 3], [], [.int 4], []]),
          (.int64, [[], [.int 5, .int 6, .null], [], [.int 8], []])] 2 = .ok bs ∧
      (∀ batch ∈ bs, batch.rows ≤ 2) ∧ bs.map (·.rows) = [0, 2, 1, 0, 1] := by
  have hlayout : ∀ c ∈ ([(.int64, [[], [.int 1, .null, .int 3], [], [.int 4], []]),
      (.int64, [[], [.int 5, .int 6, .null], [], [.int 8], []])] : Chunks),
      c.2.map List.length = [0, 3, 0, 1, 0] := by decide
  have hfields : [⟨"n", .int64, true⟩, ⟨"m", .leaf (.integer .int8), true⟩] ≠
      ([] : Schema) := by decide
  obtain ⟨-, hok⟩ := batches_sliced hfields (by decide) hlayout (by decide : 1 ≤ 2)
  obtain ⟨hbatches, -, -, hkept, -⟩ := hok _ rfl
  exact ⟨_, rfl, fun batch hb => (hbatches batch hb).2.1, hkept (by decide)⟩

/-- Cells that are computed run on over the end of a chunk, and a chunk without rows that is kept
gives a batch without rows. -/
theorem sizes_ne_by_chunk :
    (∃ bs, batches [⟨"n", .leaf (.integer .int32), true⟩]
        [(.int64, [[.int 1, .null, .int 3], [.int 4, .int 5]])] 2 = .ok bs ∧
      bs.map (·.rows) = [2, 2, 1] ∧ bs.map (·.rows) ≠ [3, 2].flatMap (sizesOf 2)) ∧
    ∃ bs, batches [⟨"n", .int64, true⟩] [(.int64, [[], [.int 7]])] 5 = .ok bs ∧
      bs.map (·.rows) = [0, 1] ∧ ¬∀ batch ∈ bs, 1 ≤ batch.rows :=
  ⟨⟨_, rfl, rfl, by decide⟩, ⟨_, rfl, rfl, by decide⟩⟩

end LazyQuery.Export
