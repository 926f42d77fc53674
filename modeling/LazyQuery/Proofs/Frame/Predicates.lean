import LazyQuery.Proofs.Engine.Groupwise
import LazyQuery.Proofs.Engine.Standing
import LazyQuery.Proofs.Frame.Stepping

/-! Predicates that are accepted because their fields are of truth values. Their execution types may
be other ones, as may those of columns that are declared of truth values: bits of numbers, sums of
truth values, days. What the columns are is followed through any calls, and tells of every predicate
whether rows can be selected by it. -/
namespace LazyQuery
open Engine

/-- What an expression is beside groups; what differs by row becomes a list there. -/
def Expr.groupedStanding (ks : List Standing) (e : Expr) : Standing :=
  if e.isBound then e.standing ks else .other

namespace Frame

def Call.standings (ks : List Standing) : Call → List Standing
  | .project es => (Expr.expandWildcards ks.length es).map (Expr.standing ks)
  | .filter _ | .limit _ => ks
  | .aggregate gs as =>
    gs.map (Expr.standing ks) ++
      as.map (if gs = [] then Expr.standing ks else Expr.groupedStanding ks)

/-- What the columns of stored batches are after calls. -/
def standingsAfter (bs : List Batch) (calls : List Call) : List Standing :=
  calls.foldl Call.standings ((firstSchema bs).map (·.type.stored.standing))

end Frame

namespace Opened
open LazyQuery.Frame (firstSchema)
variable {o o' : Opened} {s t fs : Schema} {ks : List Standing} {es gs : List Expr}
  {xs ys : List (Formula × ColumnType)}

/-- Columns are found where a schema has them, and are what they are said to be. -/
structure Stands (o : Opened) (s : Schema) (ks : List Standing) : Prop where
  placed : o.Placed s
  types : o.header.map (·.2.standing) = ks

namespace Stands

theorem length_eq (h : o.Stands s ks) : ks.length = s.length := by
  rw [← h.types, List.length_map, h.placed.width]

theorem found (h : o.Stands s ks) (i : Int) (k : Nat) (t : ColumnType)
    (hi : columnAt? o.layout o.header i = some (k, t)) :
    Schema.position? ks.length i = some k ∧ ks[k]? = some t.standing := by
  obtain ⟨hk, ht⟩ := h.placed.found hi
  rw [List.getElem?_map] at ht
  obtain ⟨x, hx, rfl⟩ := Option.map_eq_some_iff.mp ht
  refine ⟨h.length_eq ▸ hk, ?_⟩
  rw [← h.types, List.getElem?_map, hx]
  rfl

theorem standing_eq (h : o.Stands s ks) {e : Expr} {x : Formula × ColumnType}
    (hx : formula? o.layout o.header e = some x) : x.2.standing = e.standing ks :=
  (formula?_eq_some.mp hx).standing_eq h.found

theorem types_select (h : o.Stands s ks) (hx : formulas? o.layout o.header es = some xs) :
    (o.select xs fs).header.map (·.2.standing) = es.map (Expr.standing ks) := by
  have hmap := congrArg (List.map ColumnType.standing) (types_positionalHeader (xs.map (·.2)))
  rw [List.map_map, List.map_map] at hmap
  exact hmap.trans (map_formulas? (fun _ _ _ hd => hd.standing_eq h.found) hx)

theorem types_group (h : o.Stands s ks) (hk : formulas? o.layout o.header gs = some ys)
    (hx : formulas? o.layout o.header es = some xs) :
    (o.group ys xs fs).header.map (·.2.standing) =
      gs.map (Expr.standing ks) ++ es.map (Expr.groupedStanding ks) := by
  have hmap := congrArg (List.map ColumnType.standing) (Opened.types_group o ys xs fs)
  rw [List.map_map, List.map_append, List.map_map, List.map_map] at hmap
  refine hmap.trans (congrArg₂ _ ?_ ?_)
  · exact map_formulas? (fun _ _ _ hd => hd.standing_eq h.found) hk
  · refine map_formulas? (fun e _ x hd => ?_) hx
    rw [Function.comp_apply, groupedType, hd.isScalar_eq_isBound, Expr.groupedStanding]
    split
    · exact hd.standing_eq h.found
    · rfl

end Stands

theorem Step.stands {call : Frame.Call} (hstep : Step s o call t o') (h : o.Stands s ks) :
    o'.Stands t (call.standings ks) := by
  refine ⟨hstep.placed h.placed, ?_⟩
  cases hstep with
  | project _ hx =>
    rw [Frame.Call.standings, h.length_eq]
    exact h.types_select hx
  | filter _ => exact h.types
  | limit n => exact h.types
  | whole _ hx => exact h.types_select hx
  | group hne _ hk hx =>
    rw [Frame.Call.standings, if_neg hne]
    exact h.types_group hk hx

theorem Steps.stands {calls : List Frame.Call} (hsteps : Steps s o calls t o') (h : o.Stands s ks) :
    o'.Stands t (calls.foldl Frame.Call.standings ks) := by
  induction hsteps generalizing ks with
  | nil => exact h
  | cons _ hstep _ ih => exact ih (hstep.stands h)

theorem stands_batches {files : Files} {bs : List Batch}
    (hs : ∀ b ∈ bs, b.schema = firstSchema bs)
    (hp : ∀ f ∈ firstSchema bs, isPattern f.name = false)
    (ho : Plan.opened? files (.memory bs (firstSchema bs)) = some o) :
    o.Stands (firstSchema bs) ((firstSchema bs).map (·.type.stored.standing)) := by
  refine ⟨placed_batches hs hp ho, ?_⟩
  by_cases hne : bs = []
  · subst hne
    cases ho
    rfl
  · rw [Plan.opened?_memory hne hs] at ho
    obtain ⟨header, hh, rfl⟩ := Outcome.map_toOption_eq_some.mp ho
    obtain ⟨-, -, rfl⟩ := storedHeader_eq_ok.mp hh
    have hmap := congrArg (List.map ColumnType.standing) (types_heldHeader (firstSchema bs))
    rwa [List.map_map, List.map_map] at hmap

end Opened

namespace Frame

/-- Which columns are verdicts in execution, whatever they are declared, and by which of the
accepted predicates rows can be selected, if no stored column has a pattern for its name: by
those that are verdicts where the columns are what they are. By others nothing is ever
selected. Comparisons, tests for nulls and what connectives make of these are verdicts whatever
the columns are. -/
theorem standing_filter {files : Files} {settings : Assignments} {bs : List Batch}
    {calls : List Call} {f : Frame} (hp : ∀ f ∈ firstSchema bs, isPattern f.name = false)
    (hf : (Source.batches bs).after (.here settings .standard) calls = .ok f) {o : Opened}
    (ho : f.plan.opened? files = some o) :
    o.header.map (·.2.standing) = standingsAfter bs calls ∧
      ∀ (e : Expr) (g : Frame) (φ : Formula) (t : ColumnType), f.filter e = .ok g →
        formula? o.layout o.header e = some (φ, t) →
          (t = .bool ↔ e.standing (standingsAfter bs calls) = .truth) ∧
          ((g.plan.opened? files).isSome = true ↔
            e.standing (standingsAfter bs calls) = .truth) ∧
          (e.standing (standingsAfter bs calls) ≠ .truth →
            ∃ fault, (g.collect files).outcome = .error fault) ∧
          (e.standing [] = .truth → t = .bool) := by
  obtain ⟨hschemas, s, o₀, hs, ho₀, hsteps⟩ := steps_of_after hf ho
  have hstands := hsteps.stands (Opened.stands_batches hschemas hp ho₀)
  refine ⟨hstands.types, fun e g φ t hg hx => ?_⟩
  have ht : t = .bool ↔ e.standing (standingsAfter bs calls) = .truth := by
    rw [← ColumnType.standing_eq_truth, hstands.standing_eq hx, standingsAfter]
  obtain ⟨field, -, -, hctx, hplan⟩ := filter_ok hs hg
  have hopen : (g.plan.opened? files).isSome = true ↔ t = .bool := by
    rw [hplan, Plan.opened?_selection, ho, Option.bind_some, hx, Option.bind_some]
    dsimp only
    split
    · rename_i hbool
      exact iff_of_true rfl hbool
    · rename_i hbool
      exact iff_of_false Bool.false_ne_true hbool
  refine ⟨ht, hopen.trans ht, fun hne => ?_, fun hnil => ?_⟩
  · cases hd : (g.collect files).outcome with
    | error fault => exact ⟨fault, rfl⟩
    | ok ds =>
      obtain ⟨-, o', -, ho', -⟩ := found_of_collect (hctx.trans (context_after hf)) hd
      exact absurd ((hopen.trans ht).mp (Option.isSome_iff_exists.mpr ⟨o', ho'⟩)) hne
  · rw [ht, Expr.standing_of_nil (by rw [hnil]; exact nofun), hnil]

def pair : Batch where
  schema := [⟨"a", .int64, true⟩, ⟨"b", .int64, true⟩]
  rows := 1
  columns := [[.int 1], [.int 1]]
  width := rfl
  height := by decide

def shared : List Expr :=
    [.binary (.column 0) "&" (.column 1), .binary (.column 0) "==" (.column 1)]

def sharing : Frame where
  plan := .projection shared (.memory [pair] pair.schema) [⟨"a & b", .bool, true⟩,
    ⟨"a == b", .bool, true⟩]
  context := .here [] .standard

/-- Both columns are declared of truth values and leave as such, but the bits are a number in
execution: rows can be selected by the comparison, not by the bits. -/
theorem standing_filter_shared :
    (Source.batches [pair]).after (.here [] .standard) [.project shared] = .ok sharing ∧
      (sharing.collect []).outcome.toOption.map Batch.allTuples =
        some [[.bool true, .bool true]] ∧
      ∃ g h, sharing.filter (.column 0) = .ok g ∧ sharing.filter (.column 1) = .ok h ∧
        (∃ fault, (g.collect []).outcome = .error fault) ∧
        (h.plan.opened? []).isSome = true := by
  have hf : (Source.batches [pair]).after (.here [] .standard) [.project shared] = .ok sharing :=
    rfl
  obtain ⟨o, ho, φ, ψ, hφ, hψ⟩ : ∃ o, sharing.plan.opened? [] = some o ∧ ∃ φ ψ,
      formula? o.layout o.header (.column 0) = some (φ, .int64) ∧
      formula? o.layout o.header (.column 1) = some (ψ, .bool) := ⟨_, rfl, _, _, rfl, rfl⟩
  obtain ⟨-, hall⟩ := standing_filter (by decide) hf ho
  refine ⟨hf, by decide +kernel, _, _, rfl, rfl, ?_, ?_⟩
  · exact (hall _ _ _ _ rfl hφ).2.2.1 (by decide)
  · exact (hall _ _ _ _ rfl hψ).2.1.mpr (by decide)

end Frame
end LazyQuery
