import LazyQuery.Proofs.Engine.Leaving
import LazyQuery.Proofs.Engine.Returning

/-! What leaves of a table leaves of every part of it: of its last columns, and of
each row by itself. -/
namespace LazyQuery
open Engine

namespace Export
variable {source target : DataType} {cells part : List Cell}

theorem convert_subset (hsub : part ⊆ cells) {out : List Cell}
    (h : source.convert target cells = .ok out) :
    ∃ out' ⊆ out, source.convert target part = .ok out' := by
  unfold DataType.convert at h ⊢
  split at h
  · rename_i he
    cases h
    exact ⟨part, hsub, if_pos he⟩
  · rename_i he
    obtain ⟨f, hf, h⟩ := Outcome.bind_eq_ok.mp h
    have hall := Outcome.mapM_eq_ok.mp h
    obtain ⟨out', hout⟩ := Outcome.exists_mapM_eq_ok.mpr fun c (hc : c ∈ part) =>
      let ⟨d, _, hcd⟩ := Outcome.exists_of_forall₂ hall (hsub hc)
      ⟨d, hcd⟩
    refine ⟨out', fun d hd => ?_, by rw [if_neg he, hf, Outcome.ok_bind, hout]⟩
    obtain ⟨c, hc, hcd⟩ := Outcome.exists_of_forall₂ (Outcome.mapM_eq_ok.mp hout).flip hd
    obtain ⟨d', hd', hcd'⟩ := Outcome.exists_of_forall₂ hall (hsub hc)
    cases hcd.symm.trans hcd'
    exact hd'

theorem convertColumn_subset (hsub : part ⊆ cells) {out : List (List Cell)}
    (h : convertColumn source target [cells] = .ok out) :
    ∃ out', convertColumn source target [part] = .ok out' := by
  obtain ⟨ds, rest, hds, -, -⟩ :=
    List.forall₂_cons_left_iff.mp (Outcome.mapM_eq_ok.mp (convertColumn_ok h))
  obtain ⟨ds', hds', hpart⟩ := convert_subset hsub hds
  refine ⟨[ds'], ?_⟩
  rw [convertColumn_chunk hds] at h
  rw [convertColumn_chunk hpart, if_neg]
  intro hlack
  obtain ⟨hne, hlack⟩ := (Bool.and_eq_true _ _).mp hlack
  obtain ⟨d, hd, hlack⟩ := List.any_eq_true.mp hlack
  rw [if_pos] at h
  · cases h
  · exact (Bool.and_eq_true _ _).mpr ⟨hne, List.any_eq_true.mpr ⟨d, hds' hd, hlack⟩⟩

theorem convertAll_subset {s : Schema} {ts : List DataType} {columns parts : List (List Cell)}
    (hsub : List.Forall₂ (· ⊆ ·) parts columns) {out : List (List (List Cell))}
    (h : convertAll s (ts.zip (columns.map fun c => [c])) = .ok out) :
    ∃ out', convertAll s (ts.zip (parts.map fun c => [c])) = .ok out' := by
  induction s generalizing ts columns parts out with
  | nil => exact ⟨[], rfl⟩
  | cons f s ih =>
    match ts, columns, parts, hsub, h with
    | [], _, _, _, h => cases h
    | _ :: _, [], _, _, h => cases h
    | t :: ts, c :: columns, part :: parts, .cons hpart hsub, h =>
      obtain ⟨converted, hc, h⟩ := Outcome.bind_eq_ok.mp h
      obtain ⟨rest, hrest, -⟩ := Outcome.bind_eq_ok.mp h
      obtain ⟨d, hd⟩ := convertColumn_subset hpart hc
      obtain ⟨out', hout⟩ := ih hsub hrest
      exact ⟨d :: out',
        Outcome.bind_eq_ok.mpr ⟨_, hd, Outcome.bind_eq_ok.mpr ⟨_, hout, rfl⟩⟩⟩

theorem convertAll_last {s s' : Schema} {ts ts' : List DataType}
    {columns columns' : List (List Cell)}
    (hs : ts.length = s.length) (hc : columns.length = s.length) {out : List (List (List Cell))}
    (h : convertAll (s ++ s') ((ts ++ ts').zip ((columns ++ columns').map fun c => [c])) =
      .ok out) :
    ∃ out', convertAll s' (ts'.zip (columns'.map fun c => [c])) = .ok out' := by
  induction s generalizing ts columns out with
  | nil =>
    obtain rfl := List.length_eq_zero_iff.mp hs
    obtain rfl := List.length_eq_zero_iff.mp hc
    exact ⟨out, h⟩
  | cons f s ih =>
    obtain ⟨t, ts, rfl⟩ := List.exists_cons_of_length_eq_add_one hs
    obtain ⟨c, columns, rfl⟩ := List.exists_cons_of_length_eq_add_one hc
    obtain ⟨converted, -, h⟩ := Outcome.bind_eq_ok.mp h
    obtain ⟨rest, hrest, -⟩ := Outcome.bind_eq_ok.mp h
    exact ih (by simpa using hs) (by simpa using hc) hrest

theorem exists_batches_row {s s' : Schema} {ts ts' : List DataType}
    {columns columns' : List (List Cell)}
    {size : Int} {bs : List Batch} {i : Nat} (hs : ts.length = s.length)
    (hc : columns.length = s.length)
    (hne : s' ≠ []) (hi : ∀ c ∈ columns', i < c.length)
    (h : batches (s ++ s') ((ts ++ ts').zip ((columns ++ columns').map fun c => [c])) size = .ok bs)
    {row : List Cell} (hrow : columns'.map (·.getD i .null) = row) :
    ∃ ds, batches s' (ts'.zip ((row.map fun c => [c]).map fun c => [c])) size = .ok ds ∧
      Batch.allTuples ds = [leaveRow s' ts' row] := by
  subst hrow
  obtain ⟨converted, hconv, h⟩ := Outcome.bind_eq_ok.mp h
  obtain ⟨n, hn, -⟩ := Outcome.bind_eq_ok.mp h
  obtain ⟨out, hout⟩ := convertAll_last hs hc hconv
  have hcell : List.Forall₂ (· ⊆ ·) ((columns'.map (·.getD i .null)).map fun c => [c])
      columns' := by
    rw [List.map_map, List.forall₂_map_left_iff, List.forall₂_same]
    intro c hc
    rw [Function.comp_apply, List.cons_subset, List.getD_eq_getElem?_getD,
      List.getElem?_eq_getElem (hi c hc)]
    exact ⟨List.getElem_mem (hi c hc), List.nil_subset _⟩
  obtain ⟨converted', hrow⟩ := convertAll_subset hcell hout
  obtain ⟨ds, hds⟩ : ∃ ds, batches s'
      (ts'.zip (((columns'.map (·.getD i .null)).map fun c => [c]).map fun c => [c])) size =
      .ok ds :=
    ⟨_, Outcome.bind_eq_ok.mpr ⟨converted', hrow, Outcome.bind_eq_ok.mpr ⟨n, hn, rfl⟩⟩⟩
  refine ⟨ds, hds, ?_⟩
  have hone : ∀ c ∈ (columns'.map (·.getD i .null)).map fun c => [c], c.length = 1 := by simp
  rw [(allTuples_batches hne hone hds).1, rowsOf, List.range_one, List.map_singleton,
    List.map_singleton, List.map_map]
  congr 2
  exact List.map_id _

theorem leaveRow_append_append {s s' : Schema} {ts ts' : List DataType} {row row' : List Cell}
    (hs : s.length = row.length) (ht : ts.length = row.length) :
    leaveRow (s ++ s') (ts ++ ts') (row ++ row') = leaveRow s ts row ++ leaveRow s' ts' row' := by
  induction row generalizing s ts with
  | nil =>
    obtain rfl := List.length_eq_zero_iff.mp hs
    obtain rfl := List.length_eq_zero_iff.mp ht
    rfl
  | cons c row ih =>
    obtain ⟨f, s, rfl⟩ := List.exists_cons_of_length_eq_add_one hs
    obtain ⟨t, ts, rfl⟩ := List.exists_cons_of_length_eq_add_one ht
    rw [List.cons_append, List.cons_append, List.cons_append, leaveRow, leaveRow,
      ih (by simpa using hs) (by simpa using ht), List.cons_append]

end Export
end LazyQuery
