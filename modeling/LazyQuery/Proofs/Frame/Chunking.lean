import LazyQuery.Proofs.Frame.Likeness
import LazyQuery.Proofs.Frame.Renaming

/-! How rows are cut into batches, on the way in and on the way out. A source is what its rows are,
one after another, whichever batches they come in; the size of batches only cuts what leaves. -/
namespace LazyQuery
open Engine

namespace Batch

theorem column_tuples (b : Batch) {k : Nat} (hk : k < b.schema.length) :
    b.columns.getD k [] = b.tuples.map fun row => row.getD k .null := by
  have hc : k < b.columns.length := b.width ▸ hk
  have hlen : (b.columns[k]).length = b.rows := b.height _ (List.getElem_mem hc)
  rw [List.getD_eq_getElem?_getD, List.getElem?_eq_getElem hc, Option.getD_some]
  apply List.ext_getElem (by simp [tuples, rowsOf, hlen])
  intro i hi hi'
  simp [tuples, rowsOf, hc, hi]

theorem stack_eq_columnsOf {s : Schema} {bs : List Batch} (hs : ∀ b ∈ bs, b.schema = s) :
    stack s.length bs = columnsOf s.length (allTuples bs) := by
  unfold stack columnsOf allTuples
  apply List.map_congr_left
  intro k hk
  have hk : k < s.length := List.mem_range.mp hk
  rw [List.map_flatMap]
  exact List.flatMap_congr fun b hb => b.column_tuples (by rwa [hs b hb])

end Batch

theorem Plan.opened?_memory_congr {files : Files} {s : Schema} {bs cs : List Batch}
    (hbne : bs ≠ [])
    (hcne : cs ≠ []) (hb : ∀ b ∈ bs, b.schema = s) (hc : ∀ b ∈ cs, b.schema = s)
    (hrows : Batch.allTuples bs = Batch.allTuples cs) :
    opened? files (.memory bs s) = opened? files (.memory cs s) := by
  have hcolumns : storedColumns s bs = storedColumns s cs := by
    rw [storedColumns, storedColumns, Batch.stack_eq_columnsOf hb, Batch.stack_eq_columnsOf hc,
      hrows]
  rw [opened?_memory hbne hb, opened?_memory hcne hc, hcolumns, ← Batch.length_allTuples bs,
    ← Batch.length_allTuples cs, hrows]

namespace Frame
open Outcome
variable {files : Files} {settings settings' : Assignments} {f g : Frame}
    {bs cs ds ds' : List Batch}

theorem firstSchema_eq {s : Schema} (hne : bs ≠ []) (hs : ∀ b ∈ bs, b.schema = s) :
    firstSchema bs = s := by
  obtain ⟨b, bs, rfl⟩ := List.exists_cons_of_ne_nil hne
  exact hs b (List.mem_cons_self ..)

/-- Where plans come to the same, the same rows are collected in batches of whichever size. -/
theorem allTuples_collect (hs : f.schema = g.schema)
    (ho : f.plan.opened? files = g.plan.opened? files) (hf : f.context = .here settings .standard)
    (hg : g.context = .here settings' .standard) (hd : (f.collect files).outcome = .ok ds)
    (hd' : (g.collect files).outcome = .ok ds') :
    Batch.allTuples ds = Batch.allTuples ds' ∧
      ∃ t, f.schema = .ok t ∧ ∀ d ∈ ds ++ ds', d.schema = t := by
  obtain ⟨_, hd⟩ := answer_of_collect hf hd
  obtain ⟨_, hd'⟩ := answer_of_collect hg hd'
  obtain ⟨o, s, t, cells, hof, hsf, ht, hcells, hd⟩ := answer_eq_ok.mp hd
  obtain ⟨o', s', t', cells', hog, hsg, ht', hcells', hd'⟩ := answer_eq_ok.mp hd'
  obtain rfl : o = o' := Option.some.inj (hof.symm.trans (ho.trans hog))
  obtain rfl : s = s' := Except.ok.inj (hsf.symm.trans (hs.trans hsg))
  obtain rfl : t = t' := Option.some.inj (ht.symm.trans ht')
  obtain rfl : cells = cells' := Except.ok.inj (hcells.symm.trans hcells')
  by_cases hne : s = []
  · subst hne
    rw [Export.batches_nil hd, Export.batches_nil hd']
    exact ⟨rfl, [], hsf, nofun⟩
  · obtain ⟨rows, hw, he⟩ := Table.exists_rows (Plan.even_opened hof ht)
    rw [he] at hcells
    obtain ⟨hrows, hall⟩ := allTuples_ofRows hne hw hcells hd
    obtain ⟨hrows', hall'⟩ := allTuples_ofRows hne hw hcells hd'
    exact ⟨hrows.trans hrows'.symm, s, hsf,
      fun d hd => (List.mem_append.mp hd).elim (hall d) (hall' d)⟩

/-- How rows are cut into batches cannot be seen in what is collected of them: the same calls on
batches of the same rows collect the same rows under one schema, whatever the settings say of the
size of batches. -/
theorem allTuples_after_chunked (files : Files) {s : Schema} {calls : List Call} (hbne : bs ≠ [])
    (hcne : cs ≠ []) (hb : ∀ b ∈ bs, b.schema = s) (hc : ∀ b ∈ cs, b.schema = s)
    (hrows : Batch.allTuples bs = Batch.allTuples cs)
    (hf : (Source.batches bs).after (.here settings .standard) calls = .ok f)
    (hg : (Source.batches cs).after (.here settings' .standard) calls = .ok g)
    (hd : (f.collect files).outcome = .ok ds) (hd' : (g.collect files).outcome = .ok ds') :
    Batch.allTuples ds = Batch.allTuples ds' ∧
      ∃ t, f.schema = .ok t ∧ g.schema = .ok t ∧ ∀ d ∈ ds ++ ds', d.schema = t := by
  obtain ⟨f₀, hf₀, hf⟩ := bind_eq_ok.mp hf
  obtain ⟨g₀, hg₀, hg⟩ := bind_eq_ok.mp hg
  have hbs : firstSchema bs = s := firstSchema_eq hbne hb
  have hcs : firstSchema cs = s := firstSchema_eq hcne hc
  obtain ⟨-, rfl⟩ := ofBatches_eq_ok.mp hf₀
  obtain ⟨-, rfl⟩ := ofBatches_eq_ok.mp hg₀
  rw [hbs] at hf
  rw [hcs] at hg
  have hs : schema ⟨.memory bs s, .here settings .standard⟩ =
    schema ⟨.memory cs s, .here settings' .standard⟩ := rfl
  have habreast : Related (Abreast files _ _) _ _ := abreast_applyAll hs calls
  rw [hf, hg] at habreast
  have hlast := habreast.of_ok
  have ho := hlast.opened (Plan.opened?_memory_congr hbne hcne hb hc hrows)
  obtain ⟨hsame, t, ht, hall⟩ :=
    allTuples_collect hlast.schema ho (context_applyAll hf) (context_applyAll hg) hd hd'
  exact ⟨hsame, t, ht, hlast.schema ▸ ht, hall⟩

def letteredApart : List Batch :=
  [⟨lettered.schema, 1, [[.int 3], [.text "u"]], rfl, by decide⟩,
    ⟨lettered.schema, 0, [[], []], rfl, by decide⟩,
    ⟨lettered.schema, 1, [[.int 5], [.text "v"]], rfl, by decide⟩]

def greater : Expr := .binary (.column 0) ">" (.literal (.int 1) .int64)

/-- Two rows that arrive in one batch leave as they do when they arrive in three and
leave one by one. -/
theorem filter_chunked :
    ∃ f g ds ds',
      (Source.batches [lettered]).after (.here [] .standard) [.filter greater] = .ok f ∧
      (Source.batches letteredApart).after (.here [(batchSizeKey, .text "1")] .standard)
        [.filter greater] = .ok g ∧
      (f.collect []).outcome = .ok ds ∧ (g.collect []).outcome = .ok ds' ∧
      ds.length = 1 ∧ ds'.length = 2 ∧ Batch.allTuples ds = Batch.allTuples ds' := by
  have hb : ∀ b ∈ [lettered], b.schema = lettered.schema := by decide
  have hc : ∀ b ∈ letteredApart, b.schema = lettered.schema := by decide
  have hrows : Batch.allTuples [lettered] = Batch.allTuples letteredApart := by decide
  have hf : (Source.batches [lettered]).after (.here [] .standard) [.filter greater] =
    .ok ⟨.selection greater (.memory [lettered] lettered.schema), .here [] .standard⟩ := rfl
  have hg : (Source.batches letteredApart).after (.here [(batchSizeKey, .text "1")] .standard)
      [.filter greater] = .ok ⟨.selection greater (.memory letteredApart lettered.schema),
        .here [(batchSizeKey, .text "1")] .standard⟩ := rfl
  refine ⟨_, _, _, _, hf, hg, rfl, rfl, rfl, rfl, ?_⟩
  exact (allTuples_after_chunked [] (List.cons_ne_nil _ _) (List.cons_ne_nil _ _) hb hc hrows hf hg
    rfl rfl).1

end Frame
end LazyQuery
