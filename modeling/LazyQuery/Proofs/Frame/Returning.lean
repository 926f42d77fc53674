import LazyQuery.Proofs.Engine.Returning
import LazyQuery.Proofs.Frame.Chunking
import LazyQuery.Proofs.Frame.Emptiness

/-! Stored batches of types of the mapping, collected without any call. They come back as they were,
cell by cell and under their schema, exactly if their columns can be held beside one another and
each cell comes back by itself. -/
namespace LazyQuery
open Engine

mutual
def DataType.zones : DataType → List String
  | .leaf (.timestamp _ zone) => zone.toList
  | .leaf _ => []
  | .list f | .largeList f | .fixedList f _ => f.zones
  | .struct fs => zonesOf fs
  | .dictionary _ v => v.zones
  | .map k v => k.zones ++ v.zones

def Field.zones : Field → List String
  | ⟨_, t, _⟩ => t.zones

/-- The names of the time zones of fields. -/
def zonesOf : List Field → List String
  | [] => []
  | ⟨_, t, _⟩ :: fs => t.zones ++ zonesOf fs
end

namespace Batch

/-- All cells of a batch are such under the types of their fields. -/
def every (p : DataType → Cell → Bool) (b : Batch) : Bool :=
  (b.schema.zip b.columns).all fun x => x.2.all (p x.1.type)

variable {s : Schema} {bs : List Batch}

theorem forall_zip_iff {columns : List (List Cell)} (hlen : columns.length = s.length)
    (p : DataType → Cell → Bool) :
    (∀ x ∈ s.zip columns, ∀ c ∈ x.2, p x.1.type c = true) ↔
      ∀ k (hk : k < s.length), ∀ c ∈ columns.getD k [], p s[k].type c = true := by
  constructor
  · intro h k hk c hc
    have hk' : k < columns.length := hlen ▸ hk
    have hx : (s[k], columns[k]) ∈ s.zip columns :=
      List.mem_iff_getElem.mpr ⟨k, by rw [List.length_zip]; exact Nat.lt_min.mpr ⟨hk,
        hk'⟩, by simp⟩
    rw [List.getD_eq_getElem?_getD, List.getElem?_eq_getElem hk'] at hc
    exact h _ hx c hc
  · intro h x hx c hc
    obtain ⟨k, hk, rfl⟩ := List.mem_iff_getElem.mp hx
    rw [List.length_zip, Nat.lt_min] at hk
    rw [List.getElem_zip] at hc ⊢
    refine h k hk.1 c ?_
    rw [List.getD_eq_getElem?_getD, List.getElem?_eq_getElem hk.2]
    exact hc

theorem forall_stack_iff (hs : ∀ b ∈ bs, b.schema = s) (p : DataType → Cell → Bool) :
    (∀ x ∈ s.zip (stack s.length bs), ∀ c ∈ x.2, p x.1.type c = true) ↔
    ∀ b ∈ bs, b.every p = true := by
  have hevery : ∀ b ∈ bs, b.every p = true ↔
      ∀ k (hk : k < s.length), ∀ c ∈ b.columns.getD k [], p s[k].type c = true := by
    intro b hb
    have hlen : b.columns.length = s.length := by rw [b.width, hs b hb]
    rw [← forall_zip_iff hlen, every, hs b hb, List.all_eq_true]
    exact forall₂_congr fun x _ => List.all_eq_true
  rw [forall₂_congr hevery, forall_zip_iff (by simp [stack])]
  constructor
  · intro h b hb k hk c hc
    refine h k hk c ?_
    simp only [stack, List.getD_eq_getElem?_getD, List.getElem?_map, List.getElem?_range hk,
      Option.map_some, Option.getD_some, List.mem_flatMap]
    exact ⟨b, hb, by rwa [List.getD_eq_getElem?_getD] at hc⟩
  · intro h k hk c hc
    simp only [stack, List.getD_eq_getElem?_getD, List.getElem?_map, List.getElem?_range hk,
      Option.map_some, Option.getD_some, List.mem_flatMap] at hc
    obtain ⟨b, hb, hc⟩ := hc
    exact h b hb k hk c (by rwa [List.getD_eq_getElem?_getD])

end Batch

namespace Engine

theorem columnsOf_rowsOf {n width : Nat} {columns : List (List Cell)} (hw : columns.length = width)
    (hn : ∀ c ∈ columns, c.length = n) : columnsOf width (rowsOf n columns) = columns := by
  apply List.ext_getElem (by simp [columnsOf, hw])
  intro k hk hk'
  have hlen : columns[k].length = n := hn _ (List.getElem_mem hk')
  apply List.ext_getElem (by simp [columnsOf, rowsOf, hlen])
  intro i hi hi'
  simp [columnsOf, rowsOf, hk', hi']

theorem settle_map_ok (cells : List Cell) : settle (cells.map Except.ok) = .ok cells := by
  rw [settle, Outcome.mapM_eq_ok, List.forall₂_map_left_iff, List.forall₂_same]
  exact fun c _ => rfl

def heldCells (s : Schema) (bs : List Batch) : List (List Cell) :=
  s.zipWith (fun f cs => cs.map f.type.store) (Batch.stack s.length bs)

theorem storedColumns_eq (s : Schema) (bs : List Batch) :
    storedColumns s bs = (heldCells s bs).map (List.map Except.ok) := by
  have hf : ∀ f : Field, f.store = f.type.store := by
    rintro ⟨name, t, nullable⟩
    funext c
    rw [Field.store]
  rw [storedColumns, heldCells, List.map_zipWith]
  congr 1
  funext f cs
  rw [List.map_map, hf]
  rfl

theorem mapM_settle_stored (s : Schema) (bs : List Batch) :
    (storedColumns s bs).mapM settle = .ok (heldCells s bs) := by
  rw [storedColumns_eq, Outcome.mapM_eq_ok, List.forall₂_map_left_iff, List.forall₂_same]
  exact fun cells _ => settle_map_ok cells

theorem length_of_mem_heldCells {s : Schema} {bs : List Batch} (hs : ∀ b ∈ bs, b.schema = s) :
    ∀ c ∈ heldCells s bs, c.length = Batch.totalRows bs := by
  intro c hc
  have hm : c.map Except.ok ∈ storedColumns s bs := by
    rw [storedColumns_eq]
    exact List.mem_map_of_mem hc
  rw [← length_of_mem_storedColumns hs hm, List.length_map]

end Engine

namespace Export
variable {s : Schema} {ts : List DataType} {cells : List (List Cell)} {size : Int} {ds : List Batch}

theorem stack_batches {n : Nat} (hn : ∀ c ∈ cells, c.length = n)
    (h : batches s (ts.zip (cells.map fun c => [c])) size = .ok ds) :
    convertAll s (ts.zip (cells.map fun c => [c])) =
        .ok ((Batch.stack s.length ds).map fun c => [c]) ∧ ∀ d ∈ ds, d.schema = s := by
  have hb := h
  obtain ⟨converted, hc, -⟩ := Outcome.bind_eq_ok.mp h
  obtain ⟨rfl, hw⟩ := convertAll_eq hc
  by_cases hne : s = []
  · subst hne
    rw [batches_nil hb]
    exact ⟨rfl, nofun⟩
  · obtain ⟨htuples, hschema⟩ := allTuples_batches hne hn hb
    rw [Batch.stack_eq_columnsOf hschema, htuples, ← rowsOf_leaveColumns hn,
      columnsOf_rowsOf hw (length_of_mem_leaveColumns hn)]
    exact ⟨hc, hschema⟩

end Export

namespace Frame
open Outcome
variable {files : Files} {s : Schema} {bs ds : List Batch} {us : List (String × ColumnType)}

/-- Stored batches are collected, if their columns can be held beside one another, as they leave. -/
theorem collected_batches (hne : bs ≠ []) (hs : ∀ b ∈ bs, b.schema = s)
    (hc : s.columns = .ok us) :
    (Source.batches bs).collected files [] [] = .ok ds ↔ (heldNames s).Nodup ∧
      Export.batches s ((s.map (·.type.returned)).zip ((heldCells s bs).map fun c => [c])) 1024 =
        .ok ds := by
  have hfirst : firstSchema bs = s := firstSchema_eq hne hs
  have hsource : ofBatches (.here [] .standard) bs = .ok ⟨.memory bs s,
      .here [] .standard⟩ := by
    rw [ofBatches_eq_ok, hfirst]
    exact ⟨hs, rfl⟩
  have hcollected : (Source.batches bs).collected files [] [] =
      (collect files ⟨.memory bs s, .here [] .standard⟩).outcome := by
    rw [Source.collected, Source.after, Source.frame, hsource]
    rfl
  have htypes : (heldHeader s).map (·.2.exported) = s.map (·.type.returned) := by
    have hmap := congrArg (List.map ColumnType.exported) (types_heldHeader s)
    rw [List.map_map, List.map_map] at hmap
    exact hmap
  rw [hcollected, collect_eq_ok rfl]
  constructor
  · rintro ⟨size, hsize, h⟩
    cases hsize
    obtain ⟨o, _, t, cells, ho, hs', ht, hcells, h⟩ := answer_eq_ok.mp h
    cases hs'
    rw [Plan.opened?_memory hne hs] at ho
    obtain ⟨header, hh, rfl⟩ := map_toOption_eq_some.mp ho
    obtain ⟨-, hn, rfl⟩ := storedHeader_eq_ok.mp hh
    obtain rfl : Table.mk (Batch.totalRows bs) (storedColumns s bs) = t := Option.some.inj ht
    rw [mapM_settle_stored] at hcells
    cases hcells
    exact ⟨hn, htypes ▸ h⟩
  · rintro ⟨hn, h⟩
    have ho : Plan.opened? files (.memory bs s) = some ⟨s, heldHeader s, fun predicates bound =>
        (Table.pick predicates bound ⟨Batch.totalRows bs, storedColumns s bs⟩).toOption⟩ := by
      rw [Plan.opened?_memory hne hs, storedHeader_eq_ok.mpr ⟨(fieldsStored_of_columns hc).1, hn,
        rfl⟩]
      rfl
    rw [← htypes] at h
    exact ⟨1024, rfl, answer_eq_ok.mpr
      ⟨_, s, ⟨_, storedColumns s bs⟩, heldCells s bs, ho, rfl, rfl, mapM_settle_stored s bs,
        h⟩⟩

/-- Batches of types of the mapping that are collected as they are come back as they were, cell by
cell and under their schema, exactly if their columns can be held beside one another and every cell
comes back by itself. The names of time zones are ones that the engine knows; which those are is not
modelled. -/
theorem collected_batches_iff {known : String → Prop} (_hzones : ∀ z ∈ zonesOf s, known z)
    (hne : bs ≠ []) (hs : ∀ b ∈ bs, b.schema = s) (hc : s.columns = .ok us)
    (hshape : ∀ b ∈ bs, b.every DataType.shapes = true) (files : Files) :
    (∃ ds, (Source.batches bs).collected files [] [] = .ok ds ∧ (∀ d ∈ ds, d.schema = s) ∧
        Batch.stack s.length ds = Batch.stack s.length bs) ↔
      (heldNames s).Nodup ∧ ∀ b ∈ bs, b.every DataType.returns = true := by
  have hn := length_of_mem_heldCells hs
  have hreturns := Export.convertAll_stored hc (by simp [Batch.stack])
    ((Batch.forall_stack_iff hs DataType.shapes).mpr hshape)
  rw [Batch.forall_stack_iff hs DataType.returns] at hreturns
  rw [← hreturns]
  constructor
  · rintro ⟨ds, hd, -, hsame⟩
    obtain ⟨hheld, hd⟩ := (collected_batches hne hs hc).mp hd
    exact ⟨hheld, (Export.stack_batches hn hd).1.trans (by rw [hsame])⟩
  · rintro ⟨hheld, hconv⟩
    obtain ⟨ds, hd⟩ : ∃ ds, Export.batches s ((s.map (·.type.returned)).zip
        ((heldCells s bs).map fun c => [c])) 1024 = .ok ds :=
      ⟨_, bind_eq_ok.mpr ⟨_, hconv, rfl⟩⟩
    obtain ⟨hout, hschema⟩ := Export.stack_batches hn hd
    refine ⟨ds, (collected_batches hne hs hc).mpr ⟨hheld, hd⟩, hschema, ?_⟩
    have hsame := Except.ok.inj (hout.symm.trans hconv)
    exact List.map_injective_iff.mpr (fun c d h => (List.cons.inj h).1) hsame

/-- Seconds in universal time, and lists of structs with a number that must be there and a day. -/
def moments : Batch where
  schema := [⟨"at", .leaf (.timestamp .second (some "UTC")), true⟩,
    ⟨"days", .list ⟨"item",
      .struct [⟨"n", .int64, false⟩, ⟨"day", .leaf .date64, true⟩], true⟩, true⟩]
  rows := 2
  columns :=
  [[.int 7, .null], [.list [.struct [.int 1, .int 86400000], .struct [.int 2, .null]], .null]]
  width := rfl
  height := by decide

/-- A column without a name beside one of the name that it would be held under. -/
def unnamed : Batch where
  schema := [⟨"", .int64, true⟩, ⟨"column_0", .int64, true⟩]
  rows := 1
  columns := [[.int 1], [.int 2]]
  width := rfl
  height := by decide

/-- Seconds and lists of structs come back as they were; a column without a name does not beside one
that is named for its position. -/
theorem collected_batches_moments :
    (∃ ds, (Source.batches [moments]).collected [] [] [] = .ok ds ∧
        (∀ d ∈ ds, d.schema = moments.schema) ∧
        Batch.stack moments.schema.length ds = Batch.stack moments.schema.length [moments]) ∧
      ¬∃ ds, (Source.batches [unnamed]).collected [] [] [] = .ok ds ∧
        (∀ d ∈ ds, d.schema = unnamed.schema) ∧
        Batch.stack unnamed.schema.length ds = Batch.stack unnamed.schema.length [unnamed] := by
  have hmoments : ∀ b ∈ [moments], b.every DataType.shapes = true := by decide
  have hunnamed : ∀ b ∈ [unnamed], b.every DataType.shapes = true := by decide
  have hzones : ∀ z ∈ zonesOf moments.schema, z = "UTC" := by decide
  have hnone : ∀ z ∈ zonesOf unnamed.schema, z = "UTC" := by decide
  rw [collected_batches_iff hzones (List.cons_ne_nil _ _) (by decide) rfl hmoments [],
    collected_batches_iff hnone (List.cons_ne_nil _ _) (by decide) rfl hunnamed []]
  exact ⟨by decide, fun h => absurd h.1 (by decide)⟩

end Frame
end LazyQuery
