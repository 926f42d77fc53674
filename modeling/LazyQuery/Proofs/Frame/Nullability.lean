import LazyQuery.Proofs.Engine.Groupwise
import LazyQuery.Proofs.Engine.Presence
import LazyQuery.Proofs.Frame.Returning
import LazyQuery.Proofs.Frame.Stepping

/-! Columns that a schema declares without nulls. What is declared so is a column that was, or a
test for nulls, under casts and names; so the declaration holds of every table on the way from the
batches of a source to those that leave. -/
namespace LazyQuery
open Engine

/-- No column of a field that must not be null has a null. -/
def Schema.Complete (s : Schema) (columns : List (List Deferred)) : Prop :=
  ∀ (k : Nat) (f : Field) (cs : List Deferred), s[k]? = some f → f.nullable = false →
    columns[k]? = some cs → ∀ c ∈ cs, Present c

/-- The cells that must be there are there. -/
def Batch.Complete (b : Batch) : Prop :=
  ∀ (k : Nat) (f : Field), b.schema[k]? = some f → f.nullable = false →
  Cell.null ∉ b.columns.getD k []

namespace Engine

/-- Values of which none is a null. -/
def Extent.Filled : Extent → Prop
  | .one c => Present c
  | .rows cs | .groups cs => ∀ c ∈ cs, Present c

section extents
variable {e : Extent} {f : Cell → Deferred}

theorem present_of_bind {c : Deferred} (hc : Present c) (h : ∀ a, a ≠ .null → Present (f a)) :
    Present (c >>= f) := by
  cases c with
  | error e => exact nofun
  | ok a => exact h a fun ha => hc (congrArg Except.ok ha)

theorem Extent.filled_map (he : e.Filled)
    (h : ∀ a, a ≠ .null → Present (f a)) : (e.map f).Filled := by
  cases e with
  | one c => exact present_of_bind he h
  | rows cs | groups cs =>
    intro c hc
    obtain ⟨d, hd, rfl⟩ := List.mem_map.mp hc
    exact present_of_bind (he d hd) h

theorem Extent.filled_map_of_forall (e : Extent) (h : ∀ a, Present (f a)) : (e.map f).Filled := by
  cases e with
  | one c => exact present_bind h
  | rows cs | groups cs =>
    intro c hc
    obtain ⟨d, -, rfl⟩ := List.mem_map.mp hc
    exact present_bind h

theorem Extent.present_atRows (he : e.Filled) (n : Nat) : ∀ c ∈ e.atRows n, Present c := by
  cases e with
  | one c =>
    intro d hd
    rw [(List.mem_replicate.mp hd).2]
    exact he
  | rows cs | groups cs => exact he

theorem Extent.present_atGroups (he : e.Filled) (p : Partition) :
    ∀ c ∈ e.atGroups p, Present c := by
  cases e with
  | one c =>
    intro d hd
    rw [(List.mem_replicate.mp hd).2]
    exact he
  | groups cs => exact he
  | rows cs =>
    intro d hd
    obtain ⟨members, -, rfl⟩ := List.mem_map.mp hd
    exact present_bind fun _ => present_ok nofun

end extents

/-- What is declared without nulls has none where the columns that are declared so have none. -/
theorem Denotes.filled {find : Int → Option (Nat × ColumnType)} {s : Schema} {e : Expr}
    {f : Formula} {t : ColumnType} {columns : List (List Deferred)} (hs : s.Complete columns)
    (hfind : ∀ i k t, find i = some (k, t) → Schema.position? s.length i = some k)
    (hd : Denotes find e f t) {field : Field} (hfield : Expr.derive s e = .ok field)
    (hn : field.nullable = false) {groups : Option Partition} {x : Extent}
    (hx : f.eval groups columns = .ok x) : x.Filled := by
  induction hd generalizing field x with
  | @column i k t hi =>
    rw [Expr.derive, Schema.at?, hfind i k t hi, Option.bind_some] at hfield
    rw [Formula.eval] at hx
    cases hk : s[k]? with
    | none =>
      rw [hk] at hfield
      cases hfield
    | some g =>
      rw [hk] at hfield
      cases hfield
      split at hx
      · rename_i cs hcs
        cases hx
        exact hs k field cs hk hn hcs
      · cases hx
  | literal =>
    cases hfield
    cases hn
  | aggregate =>
    obtain ⟨-, -, hfield⟩ := Outcome.bind_eq_ok.mp hfield
    cases hfield
    cases hn
  | binary =>
    obtain ⟨l, -, hfield⟩ := Outcome.bind_eq_ok.mp hfield
    obtain ⟨r, -, hfield⟩ := Outcome.bind_eq_ok.mp hfield
    unfold Expr.binaryField at hfield
    dsimp only at hfield
    split at hfield
    · cases hfield
    · split at hfield
      · cases hfield
        cases hn
      · split at hfield <;> cases hfield <;> cases hn
  | not =>
    obtain ⟨inner, -, hfield⟩ := Outcome.bind_eq_ok.mp hfield
    cases hfield
    cases hn
  | isNull | isNotNull =>
    obtain ⟨y, -, hx⟩ := Outcome.bind_eq_ok.mp hx
    cases hx
    exact y.filled_map_of_forall fun _ => present_bool _
  | cast _ _ _ ih =>
    obtain ⟨inner, hinner, hfield⟩ := Outcome.bind_eq_ok.mp hfield
    cases hfield
    unfold Formula.coerced at hx
    split at hx
    · exact ih hinner hn hx
    · obtain ⟨y, hy, hx⟩ := Outcome.bind_eq_ok.mp hx
      cases hx
      exact Extent.filled_map (ih hinner hn hy) fun a ha => present_castCell ha _ _
  | «alias» _ ih =>
    obtain ⟨inner, hinner, hfield⟩ := Outcome.bind_eq_ok.mp hfield
    cases hfield
    exact ih hinner hn hx

theorem filled_formulas? {s : Schema} {layout : Schema} {h : Header}
    {columns : List (List Deferred)} (hs : s.Complete columns)
    (hfind : ∀ i k t, columnAt? layout h i = some (k, t) → Schema.position? s.length i = some k)
    {groups : Option Partition} {es : List Expr} {fs : Schema} {xs : List (Formula × ColumnType)}
    {vs : List Extent} (hf : Expr.deriveAll s es = .ok fs) (hx : formulas? layout h es = some xs)
    (hv : (xs.map (·.1)).mapM (Formula.eval groups columns) = .ok vs) :
    List.Forall₂ (fun f v => f.nullable = false → v.Filled) fs vs := by
  induction es generalizing fs xs vs with
  | nil =>
    cases hf
    cases hx
    cases hv
    exact .nil
  | cons e es ih =>
    obtain ⟨f, hfe, hf⟩ := Outcome.bind_eq_ok.mp hf
    obtain ⟨fs', hfs, hf⟩ := Outcome.bind_eq_ok.mp hf
    cases hf
    rw [formulas?_cons] at hx
    obtain ⟨x, hxe, hx⟩ := Option.bind_eq_some_iff.mp hx
    obtain ⟨xs', hxs, hx⟩ := Option.map_eq_some_iff.mp hx
    cases hx
    rw [List.map_cons, List.mapM_cons] at hv
    obtain ⟨v, hve, hv⟩ := Outcome.bind_eq_ok.mp hv
    obtain ⟨vs', hvs, hv⟩ := Outcome.bind_eq_ok.mp hv
    cases hv
    refine .cons (fun hn => ?_) (ih hfs hxs hvs)
    exact (formula?_eq_some.mp hxe).filled hs hfind hfe hn hve

theorem complete_of_forall₂ {s : Schema} {vs : List Extent} {g : Extent → List Deferred}
    (h : List.Forall₂ (fun f v => f.nullable = false → v.Filled) s vs)
    (hg : ∀ v : Extent, v.Filled → ∀ c ∈ g v, Present c) : s.Complete (vs.map g) := by
  intro k f cs hk hn hcs
  rw [List.getElem?_map] at hcs
  obtain ⟨v, hv, rfl⟩ := Option.map_eq_some_iff.mp hcs
  obtain ⟨hlt, rfl⟩ := List.getElem?_eq_some_iff.mp hk
  obtain ⟨hlt', rfl⟩ := List.getElem?_eq_some_iff.mp hv
  exact hg _ ((List.forall₂_iff_get.mp h).2 k hlt hlt' hn)

theorem complete_map {s : Schema} {columns : List (List Deferred)}
    {g : List Deferred → List Deferred}
    (h : s.Complete columns) (hg : ∀ cs, g cs ⊆ cs) : s.Complete (columns.map g) := by
  intro k f cs hk hn hcs c hc
  rw [List.getElem?_map] at hcs
  obtain ⟨ds, hds, rfl⟩ := Option.map_eq_some_iff.mp hcs
  exact h k f ds hk hn hds c (hg ds hc)

theorem complete_append {s s' : Schema} {columns columns' : List (List Deferred)}
    (hl : columns.length = s.length) (h : s.Complete columns) (h' : s'.Complete columns') :
    Schema.Complete (s ++ s') (columns ++ columns') := by
  intro k f cs hk hn hcs
  rcases Nat.lt_or_ge k s.length with hlt | hge
  · rw [List.getElem?_append_left hlt] at hk
    rw [List.getElem?_append_left (hl ▸ hlt)] at hcs
    exact h k f cs hk hn hcs
  · rw [List.getElem?_append_right hge] at hk
    rw [List.getElem?_append_right (hl ▸ hge), hl] at hcs
    exact h' _ f cs hk hn hcs

theorem complete_cut {s : Schema} {t : Table} (h : s.Complete t.columns) (bound : Option Nat) :
    s.Complete (t.cut bound).columns := by
  cases bound with
  | none => exact h
  | some n => exact complete_map h fun cs => List.take_subset n cs

theorem complete_keep {s : Schema} {t : Table} (h : s.Complete t.columns) (verdicts : List Cell) :
    s.Complete (t.keep verdicts).columns := by
  refine complete_map h fun cs c hc => ?_
  obtain ⟨e, he, rfl⟩ := List.mem_map.mp hc
  exact (List.of_mem_zip (List.mem_of_mem_filter he)).1

theorem complete_pick {s : Schema} {t t' : Table} (h : s.Complete t.columns)
    {predicates : List Formula}
    {bound : Option Nat} (ht : Table.pick predicates bound t = .ok t') : s.Complete t'.columns := by
  obtain ⟨found, hfound, rfl⟩ := pick_ok.mp ht
  refine complete_cut ?_ bound
  cases predicates with
  | nil =>
    cases hfound
    exact h
  | cons f fs =>
    obtain ⟨e, verdicts, -, -, rfl⟩ := satisfying_cons_ok.mp hfound
    exact complete_keep h verdicts

theorem present_of_settle {cs : List Deferred} {out : List Cell} (h : settle cs = .ok out)
    (hc : ∀ c ∈ cs, Present c) : Cell.null ∉ out := by
  intro hn
  obtain ⟨c, hm, he⟩ := Outcome.exists_of_forall₂ (Outcome.mapM_eq_ok.mp h).flip hn
  exact hc c hm he

theorem complete_keys {t : Table} (ht : t.Even) {s : Schema} {fs : List Formula} {es : List Extent}
    (hv : fs.mapM (Formula.eval none t.columns) = .ok es)
    (hf : List.Forall₂ (fun f v => f.nullable = false → v.Filled) s es)
    {keys : List (List Cell)}
    (hk : keysOf t.rows es = .ok keys) :
    s.Complete ((columnsOf es.length (distinctKeys keys)).map fun c => c.map Except.ok) := by
  obtain ⟨cells, hcells, hk⟩ := Outcome.bind_eq_ok.mp hk
  cases hk
  intro k f cs hkf hn hcs c hc
  obtain ⟨hlt, rfl⟩ := List.getElem?_eq_some_iff.mp hkf
  have hke : k < es.length := hf.length_eq ▸ hlt
  have hkc : k < cells.length := (Outcome.mapM_eq_ok.mp hcells).length_eq ▸ hke
  simp only [columnsOf, List.map_map, List.getElem?_map, List.getElem?_range hke, Option.map_some,
    Option.some.injEq] at hcs
  subst hcs
  obtain ⟨a, ha, rfl⟩ := List.mem_map.mp hc
  obtain ⟨key, hkey, rfl⟩ := List.mem_map.mp ha
  obtain ⟨i, hi, rfl⟩ := List.mem_map.mp ((firsts_distinctKeys _).sublist.mem hkey)
  -- the cell stands in the column of all rows, where no null is
  have hsettle := (List.forall₂_iff_get.mp (Outcome.mapM_eq_ok.mp hcells)).2 k hke hkc
  have hfilled := (List.forall₂_iff_get.mp hf).2 k hlt hke hn
  have hfits := fits_mapM_eval ht (divides_none _) hv es[k] (List.getElem_mem hke)
  have hone : (if es.all Extent.isOne then 1 else t.rows) = t.rows ∨ es[k].isOne = true := by
    split
    · rename_i hall
      exact .inr (List.all_eq_true.mp hall _ (List.getElem_mem hke))
    · exact .inl rfl
  have hi : i < cells[k].length := by
    rw [show cells[k].length = _ from length_settle hsettle]
    exact (Extent.length_atRows hfits hone).symm ▸ List.mem_range.mp hi
  have hcell : (cells.map fun c => c.getD i .null).getD k .null = cells[k][i] := by simp [hkc, hi]
  rw [hcell]
  refine present_ok fun hnull => present_of_settle hsettle (Extent.present_atRows hfilled _) ?_
  exact hnull ▸ List.getElem_mem hi

end Engine

/-- Columns are found where a schema has them, and those that must have no nulls have none. -/
structure Opened.Upholds (o : Opened) (s : Schema) : Prop where
  placed : o.Placed s
  complete : ∀ {predicates : List Formula} {bound : Option Nat} {t : Table},
    o.run predicates bound = some t → s.Complete t.columns

namespace Opened
open LazyQuery.Frame (firstSchema)
variable {o o' : Opened} {s t fs : Schema} {es : List Expr} {xs : List (Formula × ColumnType)}

theorem Upholds.position (h : o.Upholds s) (i : Int) (k : Nat) (t : ColumnType)
    (hi : columnAt? o.layout o.header i = some (k, t)) : Schema.position? s.length i = some k :=
  (h.placed.found hi).1

theorem Upholds.select (h : o.Upholds s) (hf : Expr.fields s es = .ok fs)
    (hx : formulas? o.layout o.header es = some xs) {predicates : List Formula} {bound : Option Nat}
    {t : Table} (ht : (o.select xs fs).run predicates bound = some t) : fs.Complete t.columns := by
  obtain ⟨t₀, ht₀, ht⟩ := Option.bind_eq_some_iff.mp ht
  obtain ⟨vs, hvs, ht⟩ := Outcome.bind_eq_ok.mp (Outcome.toOption_eq_some.mp ht)
  obtain ⟨-, -, hf⟩ := Outcome.bind_eq_ok.mp hf
  have hfilled := filled_formulas? (h.complete ht₀) h.position hf hx hvs
  exact complete_pick (complete_of_forall₂ hfilled fun v hv => Extent.present_atRows hv _) ht

theorem Upholds.group (h : o.Upholds s) (heven : o.Even) {gs as : List Expr}
    {ks : List (Formula × ColumnType)} (hf : Expr.fields s (gs ++ as) = .ok fs)
    (hk : formulas? o.layout o.header gs = some ks) (hx : formulas? o.layout o.header as = some xs)
    {predicates : List Formula} {bound : Option Nat} {t : Table}
    (ht : (o.group ks xs fs).run predicates bound = some t) : fs.Complete t.columns := by
  obtain ⟨t₀, ht₀, ht⟩ := Option.bind_eq_some_iff.mp ht
  obtain ⟨vs, hvs, ht⟩ := Outcome.bind_eq_ok.mp (Outcome.toOption_eq_some.mp ht)
  obtain ⟨keys, hkeys, ht⟩ := Outcome.bind_eq_ok.mp ht
  obtain ⟨found, hfound, hpick⟩ := Outcome.bind_eq_ok.mp ht
  obtain ⟨-, -, hf⟩ := Outcome.bind_eq_ok.mp hf
  obtain ⟨kfs, afs, hkfs, hafs, rfl⟩ := Expr.deriveAll_append hf
  have hs := h.complete ht₀
  have hwidth : vs.length = ks.length := by
    rw [← (Outcome.mapM_eq_ok.mp hvs).length_eq, List.length_map]
  have hkeyed := complete_keys (heven ht₀) hvs (filled_formulas? hs h.position hkfs hk hvs) hkeys
  have hrest := complete_of_forall₂ (filled_formulas? hs h.position hafs hx hfound) fun v hv =>
    Extent.present_atGroups hv (groupsOf t₀.rows vs keys)
  refine complete_pick (complete_append ?_ (hwidth ▸ hkeyed) hrest) hpick
  rw [List.length_map, columnsOf, List.length_map, List.length_range, length_formulas? hk,
    Expr.length_deriveAll hkfs]

/-- Every step keeps to what its schema declares. -/
theorem Step.upholds {call : Frame.Call} (hstep : Step s o call t o') (heven : o.Even)
    (h : o.Upholds s) :
    o'.Upholds t := by
  refine ⟨hstep.placed h.placed, fun {predicates bound t} ht => ?_⟩
  cases hstep with
  | project hf hx | whole hf hx => exact h.select hf hx ht
  | @filter e f _ =>
    rw [keep] at ht
    dsimp only at ht
    split at ht
    · exact h.complete ht
    · obtain ⟨t₀, ht₀, ht⟩ := Option.bind_eq_some_iff.mp ht
      obtain ⟨found, hfound, ht⟩ := Outcome.bind_eq_ok.mp (Outcome.toOption_eq_some.mp ht)
      have hpick : Table.pick [f] none t₀ = .ok (found.cut none) :=
        pick_ok.mpr ⟨found, hfound, rfl⟩
      exact complete_pick (complete_pick (h.complete ht₀) hpick) ht
  | limit n =>
    rw [take] at ht
    dsimp only at ht
    split at ht
    · exact h.complete ht
    · obtain ⟨t₀, ht₀, ht⟩ := Option.bind_eq_some_iff.mp ht
      exact complete_pick (h.complete ht₀) (Outcome.toOption_eq_some.mp ht)
  | group _ hf hk hx => exact h.group heven hf hk hx ht

theorem Steps.upholds {calls : List Frame.Call} (hsteps : Steps s o calls t o') (h : o.Upholds s) :
    o'.Upholds t := by
  induction hsteps with
  | nil => exact h
  | cons heven hstep _ ih => exact ih (hstep.upholds heven h)

theorem upholds_batches {files : Files} {bs : List Batch} (hne : bs ≠ [])
    (hs : ∀ b ∈ bs, b.schema = firstSchema bs)
    (hp : ∀ f ∈ firstSchema bs, isPattern f.name = false)
    (hb : ∀ b ∈ bs, b.Complete)
    (ho : Plan.opened? files (.memory bs (firstSchema bs)) = some o) :
      o.Upholds (firstSchema bs) := by
  refine ⟨placed_batches hs hp ho, fun {predicates bound t} ht => ?_⟩
  rw [Plan.opened?_memory hne hs] at ho
  obtain ⟨header, -, rfl⟩ := Option.map_eq_some_iff.mp ho
  refine complete_pick ?_ (Outcome.toOption_eq_some.mp ht)
  intro k f cs hk hn hcs c hc
  obtain ⟨hlt, -⟩ := List.getElem?_eq_some_iff.mp hk
  simp only [storedColumns_eq, heldCells, Batch.stack, List.getElem?_map, List.getElem?_zipWith, hk,
    List.getElem?_range hlt, Option.map_some, Option.some.injEq] at hcs
  subst hcs
  obtain ⟨a, ha, rfl⟩ := List.mem_map.mp hc
  obtain ⟨d, hd, rfl⟩ := List.mem_map.mp ha
  obtain ⟨b, hbm, hd⟩ := List.mem_flatMap.mp hd
  -- what is stored of a cell is a null only where the cell is one
  refine present_ok fun hnull => ?_
  have hdn : d.isNull = true := by rw [← DataType.isNull_store f.type, hnull]; rfl
  exact hb b hbm k f (hs b hbm ▸ hk) hn (Cell.eq_null_of_isNull hdn ▸ hd)

end Opened

namespace Export

theorem convert_of_convertAll {s : Schema} {ts : List DataType} {cells out : List (List Cell)}
    (h : convertAll s (ts.zip (cells.map fun c => [c])) = .ok (out.map fun c => [c])) {k : Nat}
    {f : Field}
    (hk : s[k]? = some f) :
    ∃ (t : DataType) (c d : List Cell),
      cells[k]? = some c ∧ out[k]? = some d ∧ t.convert f.type c = .ok d := by
  induction s generalizing ts cells out k with
  | nil => cases hk
  | cons g s ih =>
    match ts, cells, h with
    | [], _, h => cases h
    | _ :: _, [], h => cases h
    | t :: ts, c :: cells, h =>
      obtain ⟨chunks, hchunks, h⟩ := Outcome.bind_eq_ok.mp h
      obtain ⟨rest, hrest, h⟩ := Outcome.bind_eq_ok.mp h
      match out, h with
      | d :: out, h =>
        obtain ⟨rfl, rfl⟩ : chunks = [d] ∧ rest = out.map fun c => [c] :=
          List.cons.inj (Except.ok.inj h)
        cases k with
        | zero =>
          cases hk
          obtain ⟨d', hd, hchunks⟩ := Outcome.bind_eq_ok.mp (convertColumn_ok hchunks)
          cases hchunks
          exact ⟨t, c, d, rfl, rfl, hd⟩
        | succ k => exact ih hrest hk

theorem complete_batches {s : Schema} {ts : List DataType} {t : Table} {cells : List (List Cell)}
    {size : Int} {ds : List Batch} (ht : t.Even) (hs : s.Complete t.columns)
    (hcells : t.columns.mapM settle = .ok cells)
    (h : batches s (ts.zip (cells.map fun c => [c])) size = .ok ds) :
    ∀ d ∈ ds, d.schema = s ∧ d.Complete := by
  have hn : ∀ c ∈ cells, c.length = t.rows := by
    intro c hc
    obtain ⟨column, hm, he⟩ :=
      Outcome.exists_of_forall₂ (Outcome.mapM_eq_ok.mp hcells).flip hc
    rw [length_settle he, ht column hm]
  obtain ⟨hconv, hschema⟩ := stack_batches hn h
  refine fun d hd => ⟨hschema d hd, fun k f hk hnull hm => ?_⟩
  rw [hschema d hd] at hk
  obtain ⟨hlt, -⟩ := List.getElem?_eq_some_iff.mp hk
  obtain ⟨u, c, out, hc, hout, he⟩ := convert_of_convertAll hconv hk
  rw [Batch.stack, List.getElem?_map, List.getElem?_range hlt, Option.map_some,
    Option.some.injEq] at hout
  obtain ⟨hkc, rfl⟩ := List.getElem?_eq_some_iff.mp hc
  have hcolumns := Outcome.mapM_eq_ok.mp hcells
  have hkt : k < t.columns.length := hcolumns.length_eq ▸ hkc
  have hsettled := (List.forall₂_iff_get.mp hcolumns).2 k hkt hkc
  have hpresent := present_of_settle hsettled (hs k f _ hk hnull (List.getElem?_eq_getElem hkt))
  exact present_convert he hpresent (hout ▸ List.mem_flatMap.mpr ⟨d, hd, hm⟩)

end Export

namespace Frame

/-- A field that is declared without nulls has none in anything that is collected, whatever
calls lead there from stored batches that have none in the fields that they declare so, and no
pattern for a name. -/
theorem complete_collected {files : Files} {settings : Assignments} {bs ds : List Batch}
    {calls : List Call} {f : Frame} (hne : bs ≠ [])
    (hp : ∀ f ∈ firstSchema bs, isPattern f.name = false) (hb : ∀ b ∈ bs, b.Complete)
    (hf : (Source.batches bs).after (.here settings .standard) calls = .ok f)
    (hd : (f.collect files).outcome = .ok ds) :
    ∃ s, f.schema = .ok s ∧ ∀ d ∈ ds, d.schema = s ∧ d.Complete := by
  obtain ⟨size, -, hd⟩ := (collect_eq_ok (context_after hf)).mp hd
  obtain ⟨o, s, t, cells, ho, hs, ht, hcells, hd⟩ := answer_eq_ok.mp hd
  obtain ⟨hschemas, s', o₀, hs', ho₀, hsteps⟩ := steps_of_after hf ho
  obtain rfl : s = s' := Except.ok.inj (hs.symm.trans hs')
  have hup := hsteps.upholds (Opened.upholds_batches hne hschemas hp hb ho₀)
  exact ⟨s, hs', Export.complete_batches (Plan.even_opened ho ht) (hup.complete ht) hcells hd⟩

def partly : Batch where
  schema := [⟨"k", .leaf (.integer .int32), false⟩, ⟨"n", .int64, true⟩]
  rows := 3
  columns := [[.int 1, .int 2, .int 1], [.null, .int 5, .null]]
  width := rfl
  height := by decide

/-- The rows without the second number, counted by the first. -/
def missing : List Call :=
  [.project [.cast (.column 0) .int64, .isNull (.column 1)], .filter (.column 1),
    .aggregate [.column 0, .column 1] [.aggregate "COUNT" [.column 0] .int64], .limit (.int 5)]

/-- Keys of a column without nulls that was cast, and of a test for nulls, are declared without
nulls and have none. -/
theorem complete_collected_missing :
    ∃ f ds, (Source.batches [partly]).after (.here [] .standard) missing = .ok f ∧
      (f.collect []).outcome = .ok ds ∧ Batch.allTuples ds = [[.int 1, .bool true, .int 2]] ∧
      ∃ s, f.schema = .ok s ∧ s.map (·.nullable) = [false, false, true] ∧
        ∀ d ∈ ds, d.schema = s ∧ d.Complete := by
  have hb : ∀ b ∈ [partly], b.Complete := by
    intro b hb k f hk hn
    obtain rfl := List.mem_singleton.mp hb
    match k, hk with
    | 0, hk => cases hk; decide
    | 1, hk => cases hk; cases hn
  obtain ⟨f, hf⟩ : ∃ f, (Source.batches [partly]).after (.here [] .standard) missing =
      .ok f := ⟨_, rfl⟩
  have hs :
      (((Source.batches [partly]).after (.here [] .standard) missing >>= Frame.schema).toOption.map
      fun s => s.map (·.nullable)) = some [false, false, true] := by decide
  have hd : (((Source.batches [partly]).after (.here [] .standard) missing >>= fun f =>
      (f.collect []).outcome).toOption.map Batch.allTuples) =
      some [[.int 1, .bool true, .int 2]] := by
    decide +kernel
  rw [hf, Outcome.ok_bind] at hs hd
  obtain ⟨ds, hds, htuples⟩ := Outcome.map_toOption_eq_some.mp hd
  obtain ⟨s, hschema, hall⟩ := complete_collected (List.cons_ne_nil _ _) (by decide) hb hf hds
  rw [hschema] at hs
  exact ⟨f, ds, hf, hds, htuples, s, hschema, Option.some.inj hs, hall⟩

end Frame
end LazyQuery
