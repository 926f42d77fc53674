import LazyQuery.Proofs.Engine.TypeMapping
import LazyQuery.Proofs.Frame.Likeness
import LazyQuery.Proofs.Frame.Renaming

/-! No rows of a schema, and stored batches of the schema that have no rows. A frame of either shows
the same schema after any calls. The first takes its columns through the mapping of types, the
second as batches are stored: where the mapping leads to the types of stored columns, the same is
collected from both. -/
namespace LazyQuery
open Engine

namespace Engine

namespace Header

theorem put_of_not_mem {name : String} (t : ColumnType) {h : Header} (hn : name ∉ h.map (·.1)) :
    put name t h = h ++ [(name, t)] := by
  induction h with
  | nil => rfl
  | cons e h ih =>
    rw [List.map_cons, List.mem_cons, not_or] at hn
    rw [put, if_neg (Ne.symm hn.1), ih hn.2, List.cons_append]

theorem collapse_eq_self {h : Header} (hn : (h.map (·.1)).Nodup) : collapse h = h := by
  have hfold : ∀ front : Header, ((front ++ h).map (·.1)).Nodup →
      h.foldl (fun found e => put e.1 e.2 found) front = front ++ h := by
    induction h with
    | nil => exact fun front _ => (List.append_nil front).symm
    | cons e h ih =>
      intro front hall
      have hsplit : front ++ e :: h = (front ++ [e]) ++ h := by simp
      have he : e.1 ∉ front.map (·.1) := by
        rw [List.map_append, List.nodup_append, List.map_cons] at hall
        exact fun hm => hall.2.2 _ hm _ (List.mem_cons_self ..) rfl
      rw [List.foldl_cons, put_of_not_mem e.2 he, hsplit]
      rw [List.map_cons, List.nodup_cons] at hn
      exact ih hn.2 _ (hsplit ▸ hall)
  exact hfold [] hn

end Header

variable {s : Schema}

def namedHeader (s : Schema) : Header := s.map fun f => (f.name, f.type.stored)

theorem emptyTable_eq_ok {c : Header} (hc : s.columns = .ok c) (hd : anyDate64 s = false)
    (hn : (s.map (·.name)).Nodup) : emptyTable s =
      .ok (.table (namedHeader s) 0 (s.map fun _ => [])) := by
  have hh : namedHeader s = c := (fieldsStored_eq s).symm.trans ((fieldsStored_of_columns hc).2 hd)
  have hnames : (c.map (·.1)).Nodup := by
    rw [← hh, namedHeader, List.map_map]
    exact hn
  rw [emptyTable, hc, Outcome.ok_bind]
  dsimp only
  rw [Header.collapse_eq_self hnames, ← hh, namedHeader, List.map_map]
  rfl

theorem namedHeader_eq_heldHeader (hs : ∀ f ∈ s, f.name ≠ "") :
    namedHeader s = heldHeader s := by
  apply List.ext_getElem (by simp [namedHeader, heldHeader])
  intro k hk hk'
  rw [namedHeader, List.length_map] at hk
  simp [namedHeader, heldHeader, heldName, hs _ (List.getElem_mem hk)]

/-- A column that has a name, which is no pattern, is found in the same place under the names of
fields and under the names that columns are held with. -/
theorem findColumn_namedHeader {k : Nat} {f : Field} (hn : (s.map (·.name)).Nodup)
    (hheld : (heldNames s).Nodup) (hk : s[k]? = some f) (hf : f.name ≠ "")
    (hp : isPattern f.name = false) :
    findColumn (namedHeader s) f.name = findColumn (heldHeader s) f.name := by
  by_cases hstar : f.name = "*"
  · rw [hstar]
    unfold findColumn
    rw [if_pos rfl, if_pos rfl]
    match s with
    | [] => rfl
    | [g] => rfl
    | g :: g' :: s =>
      rw [heldHeader, List.mapIdx_cons, List.mapIdx_cons]
      rfl
  · rw [← names_heldHeader] at hheld
    have hn : ((namedHeader s).map (·.1)).Nodup := by
      rw [namedHeader, List.map_map]
      exact hn
    have hnamed : (namedHeader s)[k]? = some (f.name, f.type.stored) := by
      rw [namedHeader, List.getElem?_map, hk, Option.map_some]
    have hstored : (heldHeader s)[k]? = some (f.name, f.type.stored) := by
      simp [heldHeader, hk, heldName, hf]
    rw [findColumn_of_getElem? hn hnamed hstar hp, findColumn_of_getElem? hheld hstored hstar hp]

theorem columnAt?_namedHeader (hn : (s.map (·.name)).Nodup) (hheld : (heldNames s).Nodup) {i : Int}
    (hf : ∀ f ∈ s.at? i, f.name ≠ "")
    (hp : (∃ f ∈ s, f.name = "") → ∀ f ∈ s.at? i, isPattern f.name = false) :
    columnAt? s (namedHeader s) i = columnAt? s (heldHeader s) i := by
  by_cases hs : ∀ f ∈ s, f.name ≠ ""
  · rw [namedHeader_eq_heldHeader hs]
  have hp := hp (by simpa using hs)
  rw [columnAt?, columnAt?]
  cases hi : s.at? i with
  | none => rfl
  | some f =>
    obtain ⟨k, -, hk⟩ := Option.bind_eq_some_iff.mp hi
    rw [Option.bind_some, Option.bind_some, findColumn_namedHeader hn hheld hk (hf f hi) (hp f hi)]

end Engine

theorem Batch.stack_rowless {b : Batch} (hb : b.rows = 0) :
    stack b.schema.length [b] = b.schema.map fun _ => [] := by
  have hc : ∀ k, b.columns.getD k [] = [] := by
    intro k
    rw [List.getD_eq_getElem?_getD]
    cases hk : b.columns[k]? with
    | none => rfl
    | some c => exact List.length_eq_zero_iff.mp ((b.height c (List.mem_of_getElem? hk)).trans hb)
  simp only [stack, List.flatMap_singleton, hc, List.map_const', List.length_range]

namespace Plan
variable {files : Files} {s : Schema}

theorem opened?_empty {c : Header} (hc : s.columns = .ok c) (hd : anyDate64 s = false)
    (hn : (s.map (·.name)).Nodup) : opened? files (.empty s) =
      some ⟨s, namedHeader s, fun predicates bound =>
        (Table.pick predicates bound ⟨0, s.map fun _ => []⟩).toOption⟩ := by
  rw [opened?, relationOf, emptyTable_eq_ok hc hd hn]
  rfl

theorem opened?_rowless {b : Batch} (hb : b.rows = 0) (hheld : allHeld b.schema = true)
    (hn : (heldNames b.schema).Nodup) : opened? files (.memory [b] b.schema) =
      some ⟨b.schema, heldHeader b.schema,
        fun predicates bound =>
          (Table.pick predicates bound ⟨0, b.schema.map fun _ => []⟩).toOption⟩ := by
  have hcolumns : storedColumns b.schema [b] = b.schema.map fun _ => [] := by
    rw [storedColumns, Batch.stack_rowless hb, List.zipWith_map_right, List.zipWith_self]
    rfl
  have hrows : Batch.totalRows [b] = 0 := by rw [Batch.totalRows_cons, Batch.totalRows_nil, hb]
  rw [opened?_memory (List.cons_ne_nil _ _) (by simp), storedHeader_eq_ok.mpr ⟨hheld, hn, rfl⟩,
    hcolumns, hrows]
  rfl

theorem columns_of_opened?_empty {o : Opened} (ho : opened? files (.empty s) = some o) :
    ∃ c, s.columns = .ok c := by
  obtain ⟨r, hr, -⟩ := relationOf_of_opened? ho
  obtain ⟨r, hr, -⟩ := Outcome.bind_eq_ok.mp hr
  obtain ⟨c, hc, -⟩ := Outcome.bind_eq_ok.mp hr
  exact ⟨c, hc⟩

end Plan

theorem Opened.Resembles.symm {is : List Int} {o o' : Opened}
    (h : o.Resembles is o') : o'.Resembles is o :=
  ⟨fun i hi => (h.found i hi).symm, h.types.symm, h.run.symm⟩

namespace Frame
open Outcome
variable {files : Files} {settings : Assignments} {c : Context} {f g : Frame} {calls : List Call}
  {s : Schema} {b : Batch}

/-- What is collected in this process after some calls on a source. -/
def Source.collected (files : Files) (settings : Assignments) (source : Source)
    (calls : List Call) :
    Outcome (List Batch) := do
  ((← source.after (.here settings .standard) calls).collect files).outcome

/-- Frames that differ in the names of their source collect the same under one schema. -/
theorem Resembles.collect_eq (h : f.Resembles files (.here settings .standard) [] g)
    (hs : f.schema = g.schema) {ds : List Batch} (hd : (f.collect files).outcome = .ok ds) :
    (g.collect files).outcome = .ok ds := by
  obtain ⟨size, hsize, hd⟩ := (collect_eq_ok h.left).mp hd
  obtain ⟨s, -, hf, -⟩ := h.schema
  refine (collect_eq_ok h.right).mpr ⟨size, hsize, answer_of_opened hs (fun o ho => ?_) hd⟩
  obtain ⟨o', ho', hres⟩ := h.opened s o hf ho
  exact ⟨o', ho', hres.exported, fun t ht => hres.run ▸ ht⟩

/-- The columns of a schema are the same through the mapping as they are when stored: each type has
an execution type and no dates in milliseconds, columns of the names can be held beside one another,
none that is asked for is without a name, and none that is asked for beside one without a name has a
pattern for its name. -/
structure Interchangeable (s : Schema) (calls : List Call) : Prop where
  mapped : ∃ columns, s.columns = .ok columns
  undated : anyDate64 s = false
  distinct : (s.map (·.name)).Nodup
  held : (heldNames s).Nodup
  named : ∀ i ∈ asked s.length calls, ∀ f ∈ s.at? i, f.name ≠ ""
  plain : (∃ f ∈ s, f.name = "") → ∀ i ∈ asked s.length calls, ∀ f ∈ s.at? i,
  isPattern f.name = false

theorem types_namedHeader (s : Schema) : (namedHeader s).map (·.2) =
    (heldHeader s).map (·.2) := by
  rw [types_heldHeader, namedHeader, List.map_map]
  rfl

/-- No rows of a schema and a stored batch without rows come to the same, but for names. -/
theorem opened_interchangeable (hb : b.rows = 0) (h : Interchangeable b.schema calls) :
    ∃ o o', Plan.opened? files (.empty b.schema) = some o ∧
      Plan.opened? files (.memory [b] b.schema) = some o' ∧
      o.Resembles (asked b.schema.length calls) o' := by
  obtain ⟨columns, hc⟩ := h.mapped
  refine ⟨_, _, Plan.opened?_empty hc h.undated h.distinct,
    Plan.opened?_rowless hb (fieldsStored_of_columns hc).1 h.held, ?_, types_namedHeader b.schema,
    rfl⟩
  exact fun i hi => columnAt?_namedHeader h.distinct h.held (h.named i hi) fun hs => h.plain hs i hi

theorem resembles_of_opened (hf : f.context = c) (hg : g.context = c) (hs : f.schema = .ok s)
    (hs' : g.schema = .ok s) {o o' : Opened} (ho : f.plan.opened? files = some o)
    (ho' : g.plan.opened? files = some o') (h : o.Resembles (asked s.length calls) o') :
    f.Resembles files c calls g := by
  refine ⟨hf, hg, ⟨s, s, hs, hs', rfl⟩, fun t p ht hp => ?_⟩
  obtain rfl : s = t := Except.ok.inj (hs.symm.trans ht)
  obtain rfl : o = p := Option.some.inj (ho.symm.trans hp)
  exact ⟨o', ho', h⟩

/-- Frames that resemble one another and show the same collect the same after the same calls. -/
theorem Resembles.follows (h : f.Resembles files (.here settings .standard) calls g)
    (hs : f.schema = g.schema) :
    Follows Eq (f.applyAll calls >>= fun f' => (f'.collect files).outcome)
      (g.applyAll calls >>= fun g' => (g'.collect files).outcome) := by
  intro ds hd
  obtain ⟨f', hf', hd⟩ := bind_eq_ok.mp hd
  obtain ⟨g', hg', hres⟩ := h.applyAll f' hf'
  have habreast : Related (Abreast files f g) (f.applyAll calls) (g.applyAll calls) :=
    abreast_applyAll hs calls
  rw [hf', hg'] at habreast
  exact ⟨ds, bind_eq_ok.mpr ⟨g', hg', hres.collect_eq habreast.of_ok.schema hd⟩, rfl⟩

theorem ofBatches_singleton (c : Context) (b : Batch) :
    ofBatches c [b] = .ok ⟨.memory [b] b.schema, c⟩ :=
  ofBatches_eq_ok.mpr ⟨by simp [firstSchema], rfl⟩

/-- After any calls no rows of a schema show the schema that a stored batch without rows
shows, or fail as it does. Where the columns are the same both ways the same is collected, or
nothing is collected from either. Where a type has no execution type nothing is collected from
no rows of the schema. -/
theorem collected_empty (hb : b.rows = 0) (files : Files) (settings : Assignments)
    (calls : List Call) :
    (∀ c, Related (fun f g => f.schema = g.schema) ((Source.empty b.schema).after c calls)
        ((Source.batches [b]).after c calls)) ∧
      (Interchangeable b.schema calls →
        ((Source.empty b.schema).collected files settings calls).toOption =
          ((Source.batches [b]).collected files settings calls).toOption) ∧
      ((∃ e, b.schema.columns = .error e) →
        ∃ e, (Source.empty b.schema).collected files settings calls = .error e) := by
  refine ⟨fun c => ?_, fun h => ?_, fun ⟨e, he⟩ => ?_⟩
  · have hs : (Frame.empty c b.schema).schema = schema ⟨.memory [b] b.schema, c⟩ := rfl
    have habreast : Related (Abreast files _ _) _ _ := abreast_applyAll hs calls
    rw [Source.after, Source.after, Source.frame, Source.frame, ofBatches_singleton]
    exact habreast.mono fun _ _ h => h.schema
  · obtain ⟨o, o', ho, ho', hres⟩ : ∃ o o', Plan.opened? files (.empty b.schema) = some o ∧
      Plan.opened? files (.memory [b] b.schema) = some o' ∧ _ := opened_interchangeable hb h
    have hto : (Frame.empty (.here settings .standard) b.schema).Resembles files _ calls
        ⟨.memory [b] b.schema, .here settings .standard⟩ :=
      resembles_of_opened rfl rfl rfl rfl ho ho' hres
    have hfrom : Resembles files _ calls ⟨.memory [b] b.schema, .here settings .standard⟩
        (Frame.empty (.here settings .standard) b.schema) :=
      resembles_of_opened rfl rfl rfl rfl ho' ho hres.symm
    have hsame := (hto.follows rfl).map_toOption_eq (f := id) (g := id) (hfrom.follows rfl)
    rw [Source.collected, Source.collected, Source.after, Source.after, Source.frame, Source.frame,
      ofBatches_singleton]
    simpa only [ok_bind, Option.map_id, id_eq] using hsame
  · cases hd : (Source.empty b.schema).collected files settings calls with
    | error f => exact ⟨f, rfl⟩
    | ok ds =>
      obtain ⟨g, hg, hd⟩ := bind_eq_ok.mp hd
      have hfound := found_of_applyAll hg (found_of_collect (context_applyAll hg) hd)
      obtain ⟨-, o, -, ho, -⟩ := hfound
      obtain ⟨columns, hc⟩ := Plan.columns_of_opened?_empty ho
      rw [he] at hc
      cases hc

/-- The stored batch of a schema that has no rows. -/
def rowless (s : Schema) : Batch where
  schema := s
  rows := 0
  columns := s.map fun _ => []
  width := List.length_map _
  height := by simp

/-- An amount, whose type has no execution type. -/
def amount : Field := ⟨"d", .leaf (.decimal128 10 2), true⟩

/-- From no rows of a number and a text the same is collected as from a batch without rows; from no
rows of an amount, nothing. -/
theorem collected_empty_lettered :
    ((Source.empty lettered.schema).collected [] [] [.project [.column 0]]).toOption =
        ((Source.batches [rowless lettered.schema]).collected [] []
          [.project [.column 0]]).toOption ∧
      ((Source.empty lettered.schema).collected [] [] [.project [.column 0]]).toOption = some [] ∧
      ∃ e, (Source.empty [amount]).collected [] [] [] = .error e := by
  have h : Interchangeable lettered.schema [.project [.column 0]] :=
    ⟨⟨_, rfl⟩, rfl, by decide, by decide, by decide, by decide⟩
  have hrows : (rowless lettered.schema).rows = 0 := rfl
  have hamount : (rowless [amount]).rows = 0 := rfl
  exact ⟨(collected_empty hrows [] [] _).2.1 h, rfl,
    (collected_empty hamount [] [] _).2.2 ⟨_, rfl⟩⟩

/-- What is collected from no rows of a schema is not what is collected from a
batch without rows. -/
def Differs (s : Schema) (calls : List Call) : Prop :=
  ((Source.empty s).collected [] [] calls).toOption ≠
    ((Source.batches [rowless s]).collected [] [] calls).toOption

/-- No rows are collected of a batch of amounts, and nothing of no rows of amounts. There are
differences as well where a name repeats, where a column without a name is asked for, or one by a
pattern beside it, and for dates in milliseconds. -/
theorem collected_empty_differs :
    Differs [amount] [] ∧
      Differs [⟨"a", .int64, true⟩, ⟨"a", .int64, true⟩] [.project [.column 0]] ∧
      Differs [⟨"", .int64, true⟩] [.project [.column 0]] ∧
      Differs [⟨"", .int64, true⟩, ⟨"^column_0$", .int64, true⟩] [.project [.column 1]] ∧
      Differs [⟨"t", .leaf .date64, true⟩]
        [.project [.cast (.column 0) (.leaf (.time64 .micro))]] :=
  ⟨nofun, nofun, nofun, nofun, nofun⟩

end Frame
end LazyQuery
