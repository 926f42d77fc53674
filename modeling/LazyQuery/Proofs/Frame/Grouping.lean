import LazyQuery.Proofs.Engine.Groupwise
import LazyQuery.Proofs.Engine.Separation
import LazyQuery.Proofs.Expr.Derivation
import LazyQuery.Proofs.Frame.Emptiness
import LazyQuery.Proofs.Frame.Chunking

/-! Frames in groups. What is collected has a row for each key of the rows, and beside the key the
row of aggregates that the rows of the group have by themselves, unless a lone value is divided in
another way than several are. -/
namespace LazyQuery
open Engine

namespace Engine

theorem getElem?_storedColumns {s : Schema} {bs : List Batch} (hs : ∀ b ∈ bs, b.schema = s)
    {k : Nat} {f : Field} (hk : s[k]? = some f) : (storedColumns s bs)[k]? =
      some ((Batch.allTuples bs).map fun row => .ok (f.store (row.getD k .null))) := by
  have hlt : k < s.length := (List.getElem?_eq_some_iff.mp hk).1
  rw [storedColumns, Batch.stack_eq_columnsOf hs, List.getElem?_zipWith, hk, columnsOf,
    List.getElem?_map, List.getElem?_range hlt]
  simp only [Option.map_some, List.map_map]
  rfl

end Engine

theorem Batch.allTuples_nameless {bs cs : List Batch}
    (h : bs.map Batch.nameless = cs.map Batch.nameless) : allTuples bs = allTuples cs := by
  have hall : ∀ ds : List Batch, allTuples (ds.map Batch.nameless) = allTuples ds :=
    fun ds => List.flatMap_map ..
  rw [← hall, h, hall]

namespace Expr

/-- The fields of expressions beside others are those that they have by themselves. -/
theorem fields_append {s fs : Schema} {es es' : List Expr} (h : fields s (es ++ es') = .ok fs) :
    ∃ gs as, fields s es = .ok gs ∧ fields s es' = .ok as ∧ fs = gs ++ as := by
  obtain ⟨u, hu, h⟩ := Outcome.bind_eq_ok.mp h
  cases u
  rw [checkReferences_eq_ok, List.forall_mem_append] at hu
  obtain ⟨gs, as, hgs, has, rfl⟩ := deriveAll_append h
  refine ⟨gs, as, Outcome.bind_eq_ok.mpr ⟨(), checkReferences_eq_ok.mpr hu.1, hgs⟩, ?_, rfl⟩
  exact Outcome.bind_eq_ok.mpr ⟨(), checkReferences_eq_ok.mpr hu.2, has⟩

theorem fields_ne_nil {s fs : Schema} {es : List Expr} (hne : es ≠ [])
    (h : fields s es = .ok fs) :
    fs ≠ [] := by
  rintro rfl
  exact hne (List.length_eq_zero_iff.mp (length_fields h).symm)

end Expr

namespace Plan

/-- The types and, row by row, the values that expressions have over a plan. -/
def values? (files : Files) (p : Plan) (es : List Expr) :
    Option (List ColumnType × List (List Cell)) :=
  (p.opened? files).bind fun o => (formulas? o.layout o.header es).bind fun xs =>
    (o.run [] none).bind fun t =>
      ((xs.map (·.1)).mapM (Formula.eval none t.columns) >>= keysOf t.rows).toOption.map
        fun keys => (xs.map (·.2), keys)

/-- Over the plan the expressions divide nothing in one way for all rows and in another for those of
a group: neither the values at rows by one value, unless `rows`, nor those of groups by one value,
unless `groups`. -/
def DividesAlike (files : Files) (p : Plan) (es : List Expr) (rows groups : Bool) : Prop :=
  ∀ o xs, p.opened? files = some o → formulas? o.layout o.header es = some xs →
    ∀ x ∈ xs, x.1.dividesAlike rows groups = true

/-- The plan has these rows, as far as expressions ask for them: each column that they get to is
found at its own position, with the type and the cells with which a column of the schema's field
would be stored. -/
def Holds (files : Files) (p : Plan) (s : Schema) (es : List Expr)
    (rows : List (List Cell)) : Prop :=
  ∀ o t, p.opened? files = some o → o.run [] none = some t → rows.length = t.rows ∧
    ∀ i ∈ es.flatMap Expr.reached, ∀ k u, columnAt? o.layout o.header i = some (k, u) →
      Schema.position? s.length i = some k ∧ ∃ f, s[k]? = some f ∧ u = f.type.stored ∧
        t.columns[k]? = some (rows.map fun row => .ok (f.store (row.getD k .null)))

end Plan

/-- Batches of the schema can be held, and what expressions get to can be asked for by name. -/
def Readable (s : Schema) (es : List Expr) : Prop :=
  (∃ h, storedHeader s = .ok h) ∧ ∀ i ∈ es.flatMap Expr.reached, ∀ f, s.at? i = some f →
    isLegible s.length f.name = true ∧ isPattern f.name = false

/-- Stored batches have the rows that they are made of, unless they are asked for by a pattern. -/
theorem Plan.holds_memory {files : Files} {s : Schema} {bs : List Batch} {es : List Expr}
    (hne : bs ≠ []) (hs : ∀ b ∈ bs, b.schema = s)
    (hp : ∀ i ∈ es.flatMap Expr.reached, ∀ f, s.at? i = some f → isPattern f.name = false) :
    Plan.Holds files (.memory bs s) s es (Batch.allTuples bs) := by
  intro o t ho ht
  rw [opened?_memory hne hs] at ho
  obtain ⟨h, hh, rfl⟩ := Outcome.map_toOption_eq_some.mp ho
  obtain rfl : Table.mk (Batch.totalRows bs) (storedColumns s bs) = t := Option.some.inj ht
  refine ⟨Batch.length_allTuples bs, fun i hi k u hfind => ?_⟩
  have hasked : ∀ f, s.at? i = some f → isLegible s.length f.name = true ∧
      isPattern f.name = false := by
    intro f hf
    rw [columnAt?, hf, Option.bind_some] at hfind
    exact ⟨isLegible_of_findColumn hh (Outcome.toOption_eq_some.mp hfind), hp i hi f hf⟩
  rw [columnAt?_stored hh hasked] at hfind
  obtain ⟨f, hf, hfind⟩ := Option.bind_eq_some_iff.mp hfind
  obtain ⟨k', hk', hfind⟩ := Option.map_eq_some_iff.mp hfind
  cases hfind
  obtain ⟨j, hj, hk⟩ := Option.bind_eq_some_iff.mp hf
  cases hk'.symm.trans hj
  exact ⟨hk', f, hk, rfl, getElem?_storedColumns hs hk⟩

namespace Frame
open Outcome
variable {files : Files} {settings : Assignments} {bs cs ds : List Batch} {g a : List Expr}
  {o : Opened} {t : Table}

theorem collected_call {call : Call} :
    (Source.batches bs).collected files settings [call] = .ok ds ↔
      (∀ b ∈ bs, b.schema = firstSchema bs) ∧
        ∃ q, (Frame.mk (.memory bs (firstSchema bs)) (.here settings .standard)).apply call =
          .ok q ∧
          (q.collect files).outcome = .ok ds := by
  rw [Source.collected, Source.after, Source.frame]
  constructor
  · intro h
    obtain ⟨q, hq, hd⟩ := bind_eq_ok.mp h
    obtain ⟨f, hf, hq⟩ := bind_eq_ok.mp hq
    obtain ⟨hs, rfl⟩ := ofBatches_eq_ok.mp hf
    obtain ⟨q', hq', hq⟩ := bind_eq_ok.mp hq
    cases hq
    exact ⟨hs, q, hq', hd⟩
  · rintro ⟨hs, q, hq, hd⟩
    refine bind_eq_ok.mpr ⟨q, bind_eq_ok.mpr ⟨_, ofBatches_eq_ok.mpr ⟨hs, rfl⟩, ?_⟩, hd⟩
    exact bind_eq_ok.mpr ⟨q, hq, rfl⟩

theorem collected_aggregate :
    (Source.batches bs).collected files settings [.aggregate g a] = .ok ds ↔
      (∀ b ∈ bs, b.schema = firstSchema bs) ∧
        ∃ fs, Expr.fields (firstSchema bs) (g ++ a) = .ok fs ∧
          ∃ size : Nat, Settings.batchSize ⟨settings, standardCatalog⟩ = .ok size ∧
            answer files (.aggregate (.memory bs (firstSchema bs)) g a fs) size = .ok ds := by
  rw [collected_call]
  refine and_congr_right fun _ => ?_
  constructor
  · rintro ⟨q, hq, hd⟩
    obtain ⟨fs, hfs, hctx, hplan⟩ := aggregate_ok rfl hq
    rw [collect_eq_ok hctx, hplan] at hd
    exact ⟨fs, hfs, hd⟩
  · rintro ⟨fs, hfs, hd⟩
    refine ⟨⟨_, .here settings .standard⟩,
      bind_eq_ok.mpr ⟨_, rfl, bind_eq_ok.mpr ⟨fs, hfs, rfl⟩⟩, ?_⟩
    exact (collect_eq_ok rfl).mpr hd

theorem all_isOne_keys {layout : Schema} {h : Header} (ht : t.Even) (hgne : g ≠ [])
    (hg : ∀ e ∈ g, e.isPlain = true ∧ e.columns ≠ []) {ks : List (Formula × ColumnType)}
    (hks : formulas? layout h g = some ks) {es : List Extent}
    (hes : (ks.map (·.1)).mapM (Formula.eval none t.columns) = .ok es) :
    es.all Extent.isOne = false := by
  obtain ⟨hrow, hscalar⟩ := shape_formulas? (fun e he => (hg e he).1) hks
  have hany := any_varying hgne (fun e he => (hg e he).2) hscalar
  exact all_isOne_eval ht (by simpa using hrow) (by rwa [List.any_map]) hes

/-- What a grouping of a table comes to: the formulas of keys and aggregates, the key of each row,
and the aggregates of each group, all of which can be computed. -/
structure Grouped (o : Opened) (t : Table) (g a : List Expr) where
  keyed : List (Formula × ColumnType)
  aggregated : List (Formula × ColumnType)
  values : List Extent
  keys : List (List Cell)
  found : List Extent
  denoted : formulas? o.layout o.header g = some keyed ∧
    formulas? o.layout o.header a = some aggregated
  evaluated : (keyed.map (·.1)).mapM (Formula.eval none t.columns) = .ok values
  varied : values.all Extent.isOne = false
  keysOf : keysOf t.rows values = .ok keys
  reduced : (aggregated.map (·.1)).mapM
    (Formula.eval (some (Partition.ofKeys keys)) t.columns) = .ok found
  settled : ∀ e ∈ found, ∀ c ∈ e.atGroups (Partition.ofKeys keys), c = .ok (cellOf c)

namespace Grouped
variable (G : Grouped o t g a)

def partition : Partition := .ofKeys G.keys

/-- The cells of the result. -/
def cells : List (List Cell) :=
  columnsOf G.keyed.length (distinctKeys G.keys) ++
    G.found.map fun e => (e.atGroups G.partition).map cellOf

/-- The types that its columns leave with. -/
def types : List DataType := G.keyed.map (·.2.exported) ++ G.aggregated.map (·.2.exported)

/-- The aggregates of one group. -/
def row (i : Nat) : List Cell :=
  G.found.map fun e => cellOf ((e.atGroups G.partition).getD i (.ok .null))

theorem length_keys : G.keys.length = t.rows := by
  rw [length_keysOf G.keysOf, G.varied, if_neg Bool.false_ne_true]

theorem length_owner : G.partition.owner.length = t.rows := (List.length_map _).trans G.length_keys

theorem width_keys : ∀ key ∈ distinctKeys G.keys, key.length = G.keyed.length := by
  intro key hkey
  rw [length_of_mem_keysOf G.keysOf key ((firsts_distinctKeys G.keys).sublist.mem hkey),
    ← (mapM_eq_ok.mp G.evaluated).length_eq, List.length_map]

theorem length_atGroups (ht : t.Even) :
    ∀ e ∈ G.found, (e.atGroups G.partition).length = (distinctKeys G.keys).length := by
  intro e he
  have hdiv : Divides t.rows (some G.partition) := by
    intro p hp
    cases hp
    exact G.length_owner
  exact Engine.length_atGroups (fits_mapM_eval ht hdiv G.reduced e he)

theorem length_cells (ht : t.Even) :
    ∀ c ∈ G.cells, c.length = (distinctKeys G.keys).length := by
  intro c hc
  rcases List.mem_append.mp hc with hc | hc
  · obtain ⟨k, -, rfl⟩ := List.mem_map.mp hc
    exact List.length_map _
  · obtain ⟨e, he, rfl⟩ := List.mem_map.mp hc
    rw [List.length_map, G.length_atGroups ht e he]

theorem row_eq (i : Nat) :
    (G.found.map fun e => (e.atGroups G.partition).map cellOf).map (·.getD i .null) = G.row i := by
  rw [row, List.map_map]
  apply List.map_congr_left
  intro e _
  rw [Function.comp_apply, List.getD_eq_getElem?_getD, List.getD_eq_getElem?_getD,
    List.getElem?_map]
  cases (e.atGroups G.partition)[i]? <;> rfl

theorem settle_row (ht : t.Even) {i : Nat} (hi : i < (distinctKeys G.keys).length) :
    (G.found.map fun e => [(e.atGroups G.partition).getD i (.ok .null)]).mapM settle =
      .ok ((G.row i).map fun c => [c]) := by
  rw [row, List.map_map, mapM_eq_ok, List.forall₂_map_left_iff, List.forall₂_map_right_iff,
    List.forall₂_same]
  intro e he
  have hlt : i < (e.atGroups G.partition).length := (G.length_atGroups ht e he).symm ▸ hi
  have hmem : (e.atGroups G.partition).getD i (.ok .null) ∈ e.atGroups G.partition := by
    rw [List.getD_eq_getElem?_getD, List.getElem?_eq_getElem hlt]
    exact List.getElem_mem hlt
  rw [G.settled e he _ hmem]
  rfl

/-- The rows of the result are the keys, each followed by the aggregates of its group. -/
theorem rowsOf_cells : rowsOf (distinctKeys G.keys).length G.cells =
    (List.range (distinctKeys G.keys).length).map fun i =>
      (distinctKeys G.keys).getD i [] ++ G.row i := by
  have hk := rowsOf_columnsOf G.width_keys
  rw [rowsOf] at hk ⊢
  apply List.map_congr_left
  intro i hi
  have hlt : i < (distinctKeys G.keys).length := List.mem_range.mp hi
  have hki := congrArg (·[i]?) hk
  rw [cells, List.map_append]
  congr 1
  · simpa [hlt] using hki
  · exact G.row_eq i

end Grouped

theorem exists_grouped {p : Plan} {fs : Schema} {size : Int} (ho : p.opened? files = some o)
    (ht : o.run [] none = some t) (hg : ∀ e ∈ g, e.isPlain = true ∧ e.columns ≠ [])
    (hgne : g ≠ [])
    (ha : ∀ e ∈ a, e.isBound = true) (h : answer files (.aggregate p g a fs) size = .ok ds) :
    ∃ G : Grouped o t g a,
      Export.batches fs (G.types.zip (G.cells.map fun c => [c])) size = .ok ds := by
  obtain ⟨o', _, tg, cells, ho', hschema, htg, hcells, hb⟩ := answer_eq_ok.mp h
  cases hschema
  rw [Plan.opened?_aggregate, ho, Option.bind_some] at ho'
  obtain ⟨ks, hks, ho'⟩ := Option.bind_eq_some_iff.mp ho'
  obtain ⟨xs, hxs, ho'⟩ := Option.map_eq_some_iff.mp ho'
  rw [if_neg hgne] at ho'
  subst ho'
  obtain ⟨t', es, keys, found, ht', hes, hkeys, hfound, rfl⟩ := Opened.run_group_eq_some.mp htg
  obtain rfl : t = t' := Option.some.inj (ht.symm.trans ht')
  have hone := all_isOne_keys (Plan.even_opened ho ht) hgne hg hks hes
  have hgroups : groupsOf t.rows es keys = .ofKeys keys := by
    rw [groupsOf, hone, if_neg Bool.false_ne_true]
  have hbound : ∀ x ∈ xs, x.1.isScalar = true :=
    forall_formulas? (fun e he x hd => hd.isScalar_of_isBound (ha e he)) hxs
  rw [Table.grouped, hgroups] at hcells
  rw [hgroups] at hfound
  rw [Opened.exported_group hbound] at hb
  obtain ⟨hsettled, rfl⟩ := settle_grouped hcells
  exact ⟨⟨ks, xs, es, keys, found, ⟨hks, hxs⟩, hes, hone, hkeys, hfound, hsettled⟩, hb⟩

theorem columnAt?_of_holds {p : Plan} {s s' : Schema} {held : List (List Cell)} {h : Header}
    {xs : List (Formula × ColumnType)} (ho : p.opened? files = some o)
    (ht : o.run [] none = some t)
    (hx : formulas? o.layout o.header a = some xs) (hheld : p.Holds files s a held)
    (hn : s.nameless = s'.nameless) (hr : Readable s' a) (hh : storedHeader s' = .ok h) :
    ∀ i ∈ a.flatMap Expr.reached, columnAt? o.layout o.header i = columnAt? s' h i := by
  intro i hi
  obtain ⟨⟨k, u⟩, hfind⟩ := Option.isSome_iff_exists.mp (found_of_formulas? hx i hi)
  obtain ⟨hk, f, hf, rfl, -⟩ := (hheld o t ho ht).2 i hi k u hfind
  have hnames := Schema.getElem?_nameless hn k
  rw [hf] at hnames
  obtain ⟨f', hf', hff⟩ := Option.map_eq_some_iff.mp hnames.symm
  rw [Schema.length_nameless hn] at hk
  have hat : s'.at? i = some f' := by rw [Schema.at?, hk, Option.bind_some, hf']
  rw [hfind, columnAt?_stored hh (hr.2 i hi), hat, Option.bind_some, hk, Option.map_some,
    (Field.nameless_eq.mp hff).1]

/-- Some rows by themselves, in whichever batches of fields of these types, have the one row of
aggregates. -/
def Alone (files : Files) (settings : Assignments) (s : Schema) (a : List Expr)
    (rows : List (List Cell)) (row : List Cell) : Prop :=
  ∀ s' cs, s.nameless = s'.nameless → Readable s' a → (∀ c ∈ cs, c.schema = s') →
    Batch.allTuples cs = rows →
      ∃ es, (Source.batches cs).collected files settings [.aggregate [] a] = .ok es ∧
        Batch.allTuples es = [row]

namespace Grouped
variable {p : Plan} {s s' gs as : Schema} {size i : Nat} {key : List Cell} {rows groups : Bool}
  {held : List (List Cell)} (G : Grouped o t g a)

theorem aggregated_ne_nil (hane : a ≠ []) : G.aggregated ≠ [] := by
  intro hnil
  have hlen := length_formulas? G.denoted.2
  rw [hnil] at hlen
  exact hane (List.length_eq_zero_iff.mp hlen.symm)

theorem values?_eq (ho : p.opened? files = some o) (ht : o.run [] none = some t) :
    p.values? files g = some (G.keyed.map (·.2), G.keys) := by
  rw [Plan.values?, ho, Option.bind_some, G.denoted.1, Option.bind_some, ht, Option.bind_some,
    G.evaluated, ok_bind, G.keysOf]
  rfl

/-- Columns of the batches have the cells that the plan's have at the rows of the group. -/
theorem columns_eq (ho : p.opened? files = some o) (ht : o.run [] none = some t)
    (hheld : p.Holds files s a held) (hn : s.nameless = s'.nameless)
    (hc : ∀ c ∈ cs, c.schema = s')
    (hrows : Batch.allTuples cs = G.partition.gather i held) :
    ∀ j ∈ a.flatMap Expr.reached, ∀ k u, columnAt? o.layout o.header j = some (k, u) →
      (storedColumns s' cs)[k]? = (t.columns.map (G.partition.gather i))[k]? := by
  intro j hj k u hfind
  obtain ⟨-, f, hf, -, hcolumn⟩ := (hheld o t ho ht).2 j hj k u hfind
  have hnames := Schema.getElem?_nameless hn k
  rw [hf] at hnames
  obtain ⟨f', hf', hff⟩ := Option.map_eq_some_iff.mp hnames.symm
  have hstore : ∀ c, f'.store c = f.store c := by
    intro c
    rw [← Field.store_nameless, hff, Field.store_nameless]
  simp only [getElem?_storedColumns hc hf', List.getElem?_map, hcolumn, Option.map_some, gather_map,
    hrows, hstore]

theorem forall_aggregated (ho : p.opened? files = some o) (ht : o.run [] none = some t)
    (hheld : p.Holds files s a held)
    (ha : ∀ e ∈ a, e.isBound = true ∧ e.reducesWhole s = true) :
    ∀ x ∈ G.aggregated, x.1.isReducible = true ∧ x.1.isScalar = true := by
  refine forall_formulas? (fun e he _ hx => ⟨hx.isReducible ?_ (ha e he).2,
    hx.isScalar_of_isBound (ha e he).1⟩) G.denoted.2
  intro i hi k u hfind
  obtain ⟨hk, f, hf, hu, -⟩ :=
    (hheld o t ho ht).2 i (List.mem_flatMap.mpr ⟨e, he, hi⟩) k u hfind
  exact ⟨f, by rw [Schema.at?, hk, Option.bind_some, hf], hu⟩

theorem run_alone (ho : p.opened? files = some o) (ht : o.run [] none = some t)
    (hheld : p.Holds files s a held) (as : Schema) (hane : a ≠ [])
    (ha : ∀ e ∈ a, e.isBound = true ∧ e.reducesWhole s = true)
    (hi : i < (distinctKeys G.keys).length)
    (hn : s.nameless = s'.nameless) (hc : ∀ c ∈ cs, c.schema = s')
    (hrows : Batch.allTuples cs = G.partition.gather i held)
    (hlone : rows = true → (held.length = 1 ↔ (Batch.allTuples cs).length = 1))
    (hone : groups = true → (distinctKeys G.keys).length = 1)
    (hd : ∀ x ∈ G.aggregated, x.1.dividesAlike rows groups = true) (header : Header) :
    (Opened.select ⟨s', header, fun predicates bound =>
        (Table.pick predicates bound ⟨Batch.totalRows cs, storedColumns s' cs⟩).toOption⟩
        G.aggregated as).run [] none =
      some ⟨1, G.found.map fun e => [(e.atGroups G.partition).getD i (.ok .null)]⟩ := by
  have hlen : held.length = G.partition.owner.length :=
    (hheld o t ho ht).1.trans G.length_owner.symm
  rw [hrows, length_gather _ _ hlen, hlen] at hlone
  have hwidth : ∀ c ∈ t.columns, c.length = G.partition.owner.length := by
    intro c hc
    rw [G.length_owner, Plan.even_opened ho ht c hc]
  have hall := G.forall_aggregated ho ht hheld ha
  have hcolumns := G.columns_eq ho ht hheld hn hc hrows
  have hsame : ∀ x ∈ G.aggregated, x.1.eval none (storedColumns s' cs) =
      x.1.eval none (t.columns.map (G.partition.gather i)) :=
    forall_formulas? (fun e he _ hx => hx.eval_congr
      (fun j hj => hcolumns j (List.mem_flatMap.mpr ⟨e, he, hj⟩)) none) G.denoted.2
  exact Opened.run_select_group hlone hone hi hwidth (fun x hx => ⟨hd x hx, hall x hx⟩)
    (G.aggregated_ne_nil hane) G.reduced hsame rfl

/-- The aggregates of the rows of a group, collected by themselves, are those of the group as they
leave. -/
theorem alone (ho : p.opened? files = some o) (ht : o.run [] none = some t)
    (hheld : p.Holds files s a held) (hgs : gs.length = G.keyed.length) (hane : a ≠ [])
    (ha : ∀ e ∈ a, e.isBound = true ∧ e.reducesWhole s = true)
    (has : Expr.fields s a = .ok as)
    (hsize : Settings.batchSize ⟨settings, standardCatalog⟩ = .ok size)
    (hb : Export.batches (gs ++ as) (G.types.zip (G.cells.map fun c => [c])) size = .ok ds)
    (hi : (distinctKeys G.keys)[i]? = some key)
    (hlone : rows = true → (held.length = 1 ↔ (membersOf G.keys key held).length = 1))
    (hone : groups = true → (distinctKeys G.keys).length = 1)
    (hd : p.DividesAlike files a rows groups) :
    Alone files settings s a (membersOf G.keys key held)
      (Export.leaveRow as (G.aggregated.map (·.2.exported)) (G.row i)) := by
  intro s' cs hn hr hc hrows
  obtain ⟨h, hh⟩ := hr.1
  have heven := Plan.even_opened ho ht
  have hcne : cs ≠ [] := by
    rintro rfl
    have hk := (firsts_distinctKeys G.keys).sublist.mem (List.mem_of_getElem? hi)
    refine membersOf_ne_nil hk ?_ hrows.symm
    rw [(hheld o t ho ht).1, G.length_keys]
  have hlt : i < (distinctKeys G.keys).length := (List.getElem?_eq_some_iff.mp hi).1
  rw [← hrows] at hlone
  rw [← gather_ofKeys hi, ← partition] at hrows
  obtain ⟨as', has', hnames⟩ := Expr.fields_nameless hn a as has
  have hrun := G.run_alone ho ht hheld as' hane ha hlt hn hc hrows hlone hone
    (hd _ _ ho G.denoted.2) h
  have hagg : ∀ c ∈ G.found.map fun e => (e.atGroups G.partition).map cellOf, i < c.length := by
    intro c hc
    obtain ⟨e, he, rfl⟩ := List.mem_map.mp hc
    rwa [List.length_map, G.length_atGroups heven e he]
  obtain ⟨es, hes, htuples⟩ := Export.exists_batches_row (by rw [List.length_map, hgs])
    (by simp [columnsOf, hgs]) (Expr.fields_ne_nil hane has) hagg hb (G.row_eq i)
  obtain ⟨es', hes', hsame⟩ := Export.batches_nameless hnames _ _ es hes
  refine ⟨es', ?_, (Batch.allTuples_nameless hsame).symm.trans htuples⟩
  rw [collected_aggregate, firstSchema_eq hcne hc]
  refine ⟨hc, as', has', size, hsize, answer_eq_ok.mpr ?_⟩
  refine ⟨_, as', _, (G.row i).map fun c => [c], ?_, rfl, hrun, G.settle_row heven hlt, ?_⟩
  · rw [Plan.opened?_aggregate, Plan.opened?_memory hcne hc, hh, toOption_ok, Option.map_some,
      Option.bind_some]
    dsimp only
    rw [← formulas?_congr (columnAt?_of_holds ho ht G.denoted.2 hheld hn hr hh), G.denoted.2]
    rfl
  · rw [Opened.exported_select]
    exact hes'

/-- The key of a row is the values that the formulas of keys have at it. -/
theorem keys_eq {width : Nat} {columns : List (List Deferred)} (he : t = Table.ofRows width columns)
    (hrow : ∀ x ∈ G.keyed, x.1.isRowwise = true) (hvary : G.keyed.any (!·.1.isScalar) = true) :
    G.keys = columns.map fun row => (G.keyed.map (·.1)).map fun f =>
      cellOf (f.atRow (columns.length == 1) row) := by
  subst he
  have hvalues := G.evaluated
  rw [mapM_eval_ofRows (by simpa using hrow)] at hvalues
  split at hvalues
  · have hkeys := G.keysOf
    rw [← Except.ok.inj hvalues] at hkeys
    exact keysOf_onRows (by rwa [List.any_map]) hkeys
  · cases hvalues

theorem allTuples_project {f r : Frame} (hf : f.context = .here settings .standard)
    (hs : f.schema = .ok s) (ho : f.plan.opened? files = some o) (ht : o.run [] none = some t)
    (hg : ∀ e ∈ g, e.isPlain = true ∧ e.columns ≠ []) (hgne : g ≠ [])
    (hgs : Expr.fields s g = .ok gs) (hr : f.project g = .ok r)
    (hd : (r.collect files).outcome = .ok ds) :
    Batch.allTuples ds = G.keys.map (Export.leaveRow gs (G.keyed.map (·.2.exported))) := by
  obtain ⟨fs, hfs, hctx, hplan⟩ := project_ok hs hr
  have hw : ∀ e ∈ g, e.isWildcard = false := fun e he => Expr.isWildcard_of_columns (hg e he).2
  rw [Expr.expandWildcards_eq hw] at hfs hplan
  obtain rfl : gs = fs := Except.ok.inj (hgs.symm.trans hfs)
  obtain ⟨_, hd⟩ := answer_of_collect (hctx.trans hf) hd
  rw [hplan] at hd
  obtain ⟨o', _, t', cells, ho', hschema, ht', hcells, hb⟩ := answer_eq_ok.mp hd
  cases hschema
  rw [Plan.opened?_projection, ho, Option.bind_some, G.denoted.1, Option.map_some] at ho'
  cases ho'
  obtain ⟨rows, -, he⟩ := Table.exists_rows (Plan.even_opened ho ht)
  obtain ⟨hrow, hscalar⟩ := shape_formulas? (fun e he => (hg e he).1) G.denoted.1
  have hvary := any_varying hgne (fun e he => (hg e he).2) hscalar
  rw [Opened.allTuples_select (Expr.fields_ne_nil hgne hgs) hrow hvary (he ▸ ht) ht' hcells hb,
    G.keys_eq he hrow hvary, List.map_map]
  apply List.map_congr_left
  intro row _
  rw [Function.comp_apply, List.map_map]
  rfl

end Grouped

/-- The aggregates of all rows are one row, also where there are no rows. -/
theorem totalRows_aggregate {f q : Frame} (hf : f.context = .here settings .standard)
    (hane : a ≠ []) (ha : ∀ e ∈ a, e.isBound = true) (hq : f.aggregate [] a = .ok q)
    (hd : (q.collect files).outcome = .ok ds) : Batch.totalRows ds = 1 := by
  obtain ⟨s, hs, -⟩ := bind_eq_ok.mp hq
  obtain ⟨fs, hfs, hctx, hplan⟩ := aggregate_ok hs hq
  obtain ⟨_, hd⟩ := answer_of_collect (hctx.trans hf) hd
  rw [hplan] at hd
  obtain ⟨o, _, t, cells, ho, hschema, ht, hcells, hb⟩ := answer_eq_ok.mp hd
  cases hschema
  rw [totalRows_batches (Expr.fields_ne_nil hane hfs) (Plan.even_opened ho ht) hcells hb]
  rw [Plan.opened?_aggregate] at ho
  obtain ⟨o₀, -, ho⟩ := Option.bind_eq_some_iff.mp ho
  obtain ⟨ks, -, ho⟩ := Option.bind_eq_some_iff.mp ho
  obtain ⟨xs, hxs, ho⟩ := Option.map_eq_some_iff.mp ho
  rw [if_pos rfl] at ho
  subst ho
  obtain ⟨t₀, es, -, hes, rfl⟩ := Opened.run_select_eq_some.mp ht
  have hbound : ∀ x ∈ xs, x.1.isScalar = true :=
    forall_formulas? (fun e he x hx => hx.isScalar_of_isBound (ha e he)) hxs
  have hlen : es.length = a.length := by
    rw [← length_formulas? hxs, ← (mapM_eq_ok.mp hes).length_eq, List.length_map]
  have hone : es.all Extent.isOne = true := all_isOne_scalar (by simpa using hbound) hes
  have hemp : es.isEmpty = false := by
    cases es with
    | nil => exact absurd (List.length_eq_zero_iff.mp hlen.symm) hane
    | cons => rfl
  rw [selected, hemp, hone]
  rfl

/-- A frame in groups comes to one row for each key of its rows, in the order in which keys appear
first: the key as it leaves, followed by the aggregates of the group's rows alone, of whichever rows
the plan has, if these are divided in the same way alone. Without groups there is always one row of
aggregates. -/
theorem allTuples_grouped {f : Frame} {s : Schema} (hf : f.context = .here settings .standard)
    (hs : f.schema = .ok s) (hgne : g ≠ [])
    (hg : ∀ e ∈ g, e.isPlain = true ∧ e.columns ≠ [])
    (hane : a ≠ []) (ha : ∀ e ∈ a, e.isBound = true ∧ e.reducesWhole s = true) :
    (∀ q cs ds, f.aggregate g a = .ok q → (f.collect files).outcome = .ok cs →
      (q.collect files).outcome = .ok ds →
        ∃ gs types keys firsts, Expr.fields s g = .ok gs ∧
          f.plan.values? files g = some (types, keys) ∧ keys.length = Batch.totalRows cs ∧
          (∀ r ps, f.project g = .ok r → (r.collect files).outcome = .ok ps →
            Batch.allTuples ps = keys.map (Export.leaveRow gs (types.map ColumnType.exported))) ∧
          Firsts keys firsts ∧
          List.Forall₂ (fun key row => ∃ rest,
            row = Export.leaveRow gs (types.map ColumnType.exported) key ++ rest ∧
            ∀ rows, f.plan.Holds files s a rows →
              f.plan.DividesAlike files a (rows.length = 1 ↔ (membersOf keys key rows).length = 1)
                (firsts.length = 1) →
              Alone files settings s a (membersOf keys key rows) rest)
            firsts (Batch.allTuples ds)) ∧
      ∀ q ds, f.aggregate [] a = .ok q → (q.collect files).outcome = .ok ds →
        Batch.totalRows ds = 1 := by
  refine ⟨fun q cs ds hq hc hd => ?_,
    fun q ds hq hd => totalRows_aggregate hf hane (fun e he => (ha e he).1) hq hd⟩
  obtain ⟨fs, hfs, hctx, hplan⟩ := aggregate_ok hs hq
  obtain ⟨gs, as, hgs, has, rfl⟩ := Expr.fields_append hfs
  obtain ⟨size, hsize, hd⟩ := (collect_eq_ok (hctx.trans hf)).mp hd
  obtain ⟨_, hc⟩ := answer_of_collect hf hc
  obtain ⟨o, s', t, _, ho, hs', ht, hcells, hc⟩ := answer_eq_ok.mp hc
  obtain rfl : s = s' := Except.ok.inj (hs.symm.trans hs')
  have hsne : s ≠ [] := by
    rintro rfl
    exact Expr.fields_nil_ne_ok hgne (fun e he => (hg e he).2) hgs
  have heven := Plan.even_opened ho ht
  rw [hplan] at hd
  obtain ⟨G, hb⟩ := exists_grouped ho ht hg hgne (fun e he => (ha e he).1) hd
  have hlen : gs.length = G.keyed.length :=
    (Expr.length_fields hgs).trans (length_formulas? G.denoted.1).symm
  have hfsne : gs ++ as ≠ [] := List.append_ne_nil_of_left_ne_nil (Expr.fields_ne_nil hgne hgs) as
  have htypes : (G.keyed.map (·.2)).map ColumnType.exported = G.keyed.map (·.2.exported) :=
    List.map_map
  refine ⟨gs, G.keyed.map (·.2), G.keys, distinctKeys G.keys, hgs, G.values?_eq ho ht,
    G.length_keys.trans (totalRows_batches hsne heven hcells hc).symm, ?_,
    firsts_distinctKeys G.keys, ?_⟩
  · intro r ps hr hp
    rw [G.allTuples_project hf hs ho ht hg hgne hgs hr hp, htypes]
  · rw [htypes, (Export.allTuples_batches hfsne (G.length_cells heven) hb).1, G.rowsOf_cells,
      List.map_map, List.forall₂_iff_get]
    refine ⟨by simp, fun i hi hi' =>
      ⟨Export.leaveRow as (G.aggregated.map (·.2.exported)) (G.row i), ?_, ?_⟩⟩
    · have hwidth := G.width_keys _ (List.getElem_mem hi)
      have hget : (distinctKeys G.keys).getD i [] = (distinctKeys G.keys)[i] := by simp [hi]
      rw [List.get_eq_getElem, List.get_eq_getElem, List.getElem_map, List.getElem_range,
        Function.comp_apply, hget]
      exact Export.leaveRow_append_append (hlen.trans hwidth.symm)
        ((List.length_map _).trans hwidth.symm)
    · intro rows hheld hdivide
      exact G.alone ho ht hheld hlen hane ha has hsize hb (List.getElem?_eq_getElem hi)
        of_decide_eq_true of_decide_eq_true hdivide

/-- Whole numbers, each with the number or the missing value that it is grouped by. -/
def counted (keys xs : List Cell) (h : xs.length = keys.length) : Batch where
  schema := [⟨"k", .int64, true⟩, ⟨"x", .int64, true⟩]
  rows := keys.length
  columns := [keys, xs]
  width := rfl
  height := by simp [h]

def summed : Expr := .aggregate "SUM" [.column 1] .double

def excess : Expr :=
  .binary (.aggregate "MAX" [.column 1] .double) "-" (.aggregate "COUNT" [.column 1] .double)

def unkeyed : Batch := counted [.null, .int 7, .null] [.int 2, .int 5, .int 3] rfl

def unkeyedAlone : Batch := counted [.null, .null] [.int 2, .int 3] rfl

theorem dividesAlike_unkeyed (rows groups : Bool) :
    Plan.DividesAlike [] (.memory [unkeyed] unkeyed.schema) [summed, excess] rows groups := by
  intro o xs ho hxs
  have hopen : Plan.opened? [] (.memory [unkeyed] unkeyed.schema) = _ :=
    Plan.opened?_memory (List.cons_ne_nil _ _) (by decide)
  cases Option.some.inj (hopen.symm.trans ho)
  cases hxs
  cases rows <;> cases groups <;> decide

/-- Two of three rows have no key, and their sum is beside no key what it is of those rows alone. -/
theorem allTuples_grouped_missing :
    ∃ ds es, (Source.batches [unkeyed]).collected [] []
        [.aggregate [.column 0] [summed, excess]] = .ok ds ∧
      (Source.batches [unkeyedAlone]).collected [] [] [.aggregate [] [summed, excess]] = .ok es ∧
      Batch.allTuples ds = [[.null, .float 5.0, .float 1.0], [.int 7, .float 5.0, .float 4.0]] ∧
      Batch.allTuples es = [[.float 5.0, .float 1.0]] := by
  have hd : ((Source.batches [unkeyed]).collected [] []
      [.aggregate [.column 0] [summed, excess]]).toOption.map Batch.allTuples =
        some [[.null, .float 5.0, .float 1.0], [.int 7, .float 5.0, .float 4.0]] := by
    decide +kernel
  have hc : ((Source.batches [unkeyed]).collected [] [] []).toOption.isSome = true :=
    by decide +kernel
  obtain ⟨ds, hds, htuples⟩ := Outcome.map_toOption_eq_some.mp hd
  obtain ⟨cs, hcs⟩ := Option.isSome_iff_exists.mp hc
  obtain ⟨-, q, hq, hcollect⟩ := collected_call.mp hds
  obtain ⟨f, hf, hcs⟩ := bind_eq_ok.mp (Outcome.toOption_eq_some.mp hcs)
  cases hf
  have hg : ∀ e ∈ [Expr.column 0], e.isPlain = true ∧ e.columns ≠ [] := by
    intro e he
    obtain rfl := List.mem_singleton.mp he
    exact ⟨rfl, List.cons_ne_nil _ _⟩
  have ha : ∀ e ∈ [summed, excess], e.isBound = true ∧
      e.reducesWhole unkeyed.schema = true := by
    decide
  obtain ⟨gs, types, keys, firsts, hgs, hvalues, -, -, hfirsts, hrows⟩ :=
    (allTuples_grouped rfl rfl (List.cons_ne_nil _ _) hg (List.cons_ne_nil _ _) ha).1 q cs ds hq hcs
      hcollect
  have hv : Plan.values? [] (.memory [unkeyed] unkeyed.schema) [.column 0] =
      some ([.integer .int64], [[.null], [.int 7], [.null]]) := by decide +kernel
  cases hgs
  cases Option.some.inj (hv.symm.trans hvalues)
  rw [htuples] at hrows
  obtain ⟨key, others, ⟨rest, hrow, halone⟩, -, rfl⟩ :=
    List.forall₂_cons_right_iff.mp hrows
  have hkey : key ∈ [[.null], [.int 7], [.null]] := hfirsts.sublist.mem (List.mem_cons_self ..)
  have hnull : key = [.null] := by
    simp only [List.mem_cons, List.not_mem_nil, or_false] at hkey
    rcases hkey with rfl | rfl | rfl
    · rfl
    · cases (List.cons.inj hrow).1
    · rfl
  subst hnull
  cases (List.cons.inj hrow).2
  have hheld : Plan.Holds [] (.memory [unkeyed] unkeyed.schema) unkeyed.schema [summed, excess]
      (Batch.allTuples [unkeyed]) :=
    Plan.holds_memory (List.cons_ne_nil _ _) (by simp) (by decide)
  obtain ⟨es, hes, hrows⟩ :=
    halone _ hheld (dividesAlike_unkeyed _ _) unkeyed.schema [unkeyedAlone]
    rfl ⟨⟨_, rfl⟩, by decide⟩ (by decide) rfl
  exact ⟨ds, es, hds, hes, htuples, hrows⟩

def portion : Expr := .binary summed "/" (.literal (.float 49.0) .double)

def mixed : Batch where
  schema :=
  [⟨"k", .int64, true⟩, ⟨"x", .leaf (.integer .int8), true⟩, ⟨"y", .int64, true⟩]
  rows := 2
  columns := [[.int 0, .int 1], [.int 100, .int 99], [.int 0, .int 0]]
  width := rfl
  height := by decide

/-- Sums that are declared to have 8 bits, and are held in 64 until they are collected. -/
def widened : Call := .project [.column 0, .binary (.column 1) "+" (.column 2)]

def narrowed : Batch where
  schema := [⟨"k", .int64, true⟩, ⟨"x + y", .leaf (.integer .int8), true⟩]
  rows := 1
  columns := [[.int 0], [.int 100]]
  width := rfl
  height := by decide

def greatestSquare : Expr := .aggregate "MAX" [.binary (.column 1) "*" (.column 1)] .double

/-- A sum of 49 is less than 1 in parts of 49 where it is that of one group of two, and exactly 1
where it is alone; groups of numbers that are negated can leave with the same truth value; and
squares of numbers that are held in 64 bits are not those of the numbers in the 8 bits that they are
collected in. -/
theorem grouped_rounds :
    (∃ ds es, (Source.batches [counted [.int 0, .int 0, .int 1] [.int 40, .int 9, .int 1]
          rfl]).collected [] [] [.aggregate [.column 0] [portion]] = .ok ds ∧
      (Source.batches [counted [.int 0, .int 0] [.int 40, .int 9] rfl]).collected [] []
        [.aggregate [] [portion]] = .ok es ∧
      (Batch.allTuples ds).head?.map List.tail ≠ (Batch.allTuples es).head?) ∧
    (∃ ds ps, (Source.batches [counted [.int 1, .int 2] [.int 40, .int 9] rfl]).collected [] []
        [.aggregate [.not (.column 0)] [summed]] = .ok ds ∧
      (Source.batches [counted [.int 1, .int 2] [.int 40, .int 9] rfl]).collected [] []
        [.project [.not (.column 0)]] = .ok ps ∧
      Batch.totalRows ds = 2 ∧ Batch.allTuples ps = [[.bool true], [.bool true]]) ∧
    ∃ cs ds es, (Source.batches [mixed]).collected [] [] [widened] = .ok cs ∧
      (Source.batches [mixed]).collected [] []
        [widened, .aggregate [.column 0] [greatestSquare]] = .ok ds ∧
      (Source.batches [narrowed]).collected [] [] [.aggregate [] [greatestSquare]] = .ok es ∧
      (cs.map Batch.schema = [narrowed.schema] ∧
        (Batch.allTuples cs).take 1 = Batch.allTuples [narrowed]) ∧
      (Batch.allTuples ds).head?.map List.tail ≠ (Batch.allTuples es).head? := by
  refine ⟨?_, ?_, ?_⟩
  · have hd : ((Source.batches [counted [.int 0, .int 0, .int 1] [.int 40, .int 9, .int 1]
        rfl]).collected [] [] [.aggregate [.column 0] [portion]]).toOption.map Batch.allTuples =
          some [[.int 0, .float (49.0 * (1.0 / 49.0))], [.int 1, .float (1.0 / 49.0)]] := by
      decide +kernel
    have he : ((Source.batches [counted [.int 0, .int 0] [.int 40, .int 9] rfl]).collected [] []
        [.aggregate [] [portion]]).toOption.map Batch.allTuples = some [[.float 1.0]] := by
      decide +kernel
    obtain ⟨ds, hds, hrows⟩ := Outcome.map_toOption_eq_some.mp hd
    obtain ⟨es, hes, hrow⟩ := Outcome.map_toOption_eq_some.mp he
    refine ⟨ds, es, hds, hes, ?_⟩
    rw [hrows, hrow]
    decide +kernel
  · have hd : ((Source.batches [counted [.int 1, .int 2] [.int 40, .int 9] rfl]).collected [] []
        [.aggregate [.not (.column 0)] [summed]]).toOption.map Batch.totalRows = some 2 := by
      decide +kernel
    have hp : ((Source.batches [counted [.int 1, .int 2] [.int 40, .int 9] rfl]).collected [] []
        [.project [.not (.column 0)]]).toOption.map Batch.allTuples =
          some [[.bool true], [.bool true]] := by
      decide +kernel
    obtain ⟨ds, hds, hrows⟩ := Outcome.map_toOption_eq_some.mp hd
    obtain ⟨ps, hps, hsame⟩ := Outcome.map_toOption_eq_some.mp hp
    exact ⟨ds, ps, hds, hps, hrows, hsame⟩
  · have hc : ((Source.batches [mixed]).collected [] [] [widened]).toOption.map
        (fun cs => (cs.map Batch.schema, Batch.allTuples cs)) =
          some ([narrowed.schema], [[.int 0, .int 100], [.int 1, .int 99]]) := by
      decide +kernel
    have hd : ((Source.batches [mixed]).collected [] []
        [widened, .aggregate [.column 0] [greatestSquare]]).toOption.map Batch.allTuples =
          some [[.int 0, .float 10000.0], [.int 1, .float 9801.0]] := by
      decide +kernel
    have he : ((Source.batches [narrowed]).collected [] []
        [.aggregate [] [greatestSquare]]).toOption.map Batch.allTuples = some [[.float 16.0]] := by
      decide +kernel
    obtain ⟨cs, hcs, hcollected⟩ := Outcome.map_toOption_eq_some.mp hc
    obtain ⟨ds, hds, hrows⟩ := Outcome.map_toOption_eq_some.mp hd
    obtain ⟨es, hes, hrow⟩ := Outcome.map_toOption_eq_some.mp he
    obtain ⟨hschemas, htuples⟩ := Prod.mk.inj hcollected
    refine ⟨cs, ds, es, hcs, hds, hes, ⟨hschemas, ?_⟩, ?_⟩
    · rw [htuples]
      rfl
    · rw [hrows, hrow]
      decide +kernel

end Frame
end LazyQuery
