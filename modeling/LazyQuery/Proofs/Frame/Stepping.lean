import LazyQuery.Proofs.Engine.Placing
import LazyQuery.Proofs.Frame.Height
import LazyQuery.Proofs.Frame.Likeness
import LazyQuery.Proofs.Frame.Renaming

/-! The steps from what a frame comes to before a call to what it comes to after it. What calls on
stored batches lead to is a chain of such steps from the batches, so that whatever every step keeps
holds at the end of the chain. -/
namespace LazyQuery
open Engine

namespace Opened
open LazyQuery.Frame (firstSchema)

/-- What a call makes of a schema and of what a frame with it has come to. -/
inductive Step (s : Schema) (o : Opened) : Frame.Call → Schema → Opened → Prop
  | project {es : List Expr} {fs : Schema} {xs : List (Formula × ColumnType)} :
    Expr.fields s (Expr.expandWildcards s.length es) = .ok fs →
      formulas? o.layout o.header (Expr.expandWildcards s.length es) = some xs →
        Step s o (.project es) fs (o.select xs fs)
  | filter {e : Expr} {f : Formula} :
    formula? o.layout o.header e = some (f, .bool) → Step s o (.filter e) s (o.keep f)
  | limit {d : Datum} (n : Nat) : Step s o (.limit d) s (o.take n)
  | whole {as : List Expr} {fs : Schema} {xs : List (Formula × ColumnType)} :
    Expr.fields s as = .ok fs → formulas? o.layout o.header as = some xs →
      Step s o (.aggregate [] as) fs (o.select xs fs)
  | group {gs as : List Expr} {fs : Schema} {ks xs : List (Formula × ColumnType)} :
    gs ≠ [] → Expr.fields s (gs ++ as) = .ok fs → formulas? o.layout o.header gs = some ks →
      formulas? o.layout o.header as = some xs → Step s o (.aggregate gs as) fs (o.group ks xs fs)

def Even (o : Opened) : Prop :=
  ∀ {predicates : List Formula} {bound : Option Nat} {t : Table},
  o.run predicates bound = some t → t.Even

/-- Calls one after another. -/
inductive Steps : Schema → Opened → List Frame.Call → Schema → Opened → Prop
  | nil {s : Schema} {o : Opened} : Steps s o [] s o
  | cons {s s' t : Schema} {o o' p : Opened} {call : Frame.Call} {calls : List Frame.Call} :
    o.Even → Step s o call s' o' → Steps s' o' calls t p → Steps s o (call :: calls) t p

/-- After a call the columns are found where the schema has them. -/
theorem Step.placed {s t : Schema} {o o' : Opened} {call : Frame.Call} (h : Step s o call t o')
    (hp : o.Placed s) : o'.Placed t := by
  cases h with
  | project hf hx | whole hf hx =>
    exact placed_select o ((length_formulas? hx).trans (Expr.length_fields hf).symm)
  | filter _ => exact hp.keep _
  | limit n => exact hp.take n
  | group _ hf hk hx =>
    refine placed_group o ?_
    rw [Expr.length_fields hf, List.length_append, List.length_append, length_formulas? hk,
      length_formulas? hx]

/-- The columns of stored batches are found where the schema has them, if no name is a pattern. -/
theorem placed_batches {files : Files} {bs : List Batch} {o : Opened}
    (hs : ∀ b ∈ bs, b.schema = firstSchema bs)
    (hp : ∀ f ∈ firstSchema bs, isPattern f.name = false)
    (ho : Plan.opened? files (.memory bs (firstSchema bs)) = some o) :
      o.Placed (firstSchema bs) := by
  by_cases hne : bs = []
  · subst hne
    cases ho
    refine ⟨rfl, fun hi => ?_⟩
    obtain ⟨field, hfield, -⟩ := Option.bind_eq_some_iff.mp hi
    obtain ⟨k, -, hk⟩ := Option.bind_eq_some_iff.mp hfield
    cases hk
  · rw [Plan.opened?_memory hne hs] at ho
    obtain ⟨header, hh, rfl⟩ := Outcome.map_toOption_eq_some.mp ho
    refine ⟨?_, fun hi => placed_stored hp hh hi⟩
    obtain ⟨-, -, rfl⟩ := storedHeader_eq_ok.mp hh
    exact List.length_mapIdx

end Opened

namespace Frame
variable {files : Files} {f g : Frame} {s : Schema} {o' : Opened}

theorem step_of_apply {call : Call} (hs : f.schema = .ok s) (hg : f.apply call = .ok g) :
    ∃ t, g.schema = .ok t ∧ ∀ o', g.plan.opened? files = some o' →
      ∃ o, f.plan.opened? files = some o ∧ o.Step s call t o' := by
  cases call with
  | project es =>
    obtain ⟨fs, hfs, -, hplan⟩ := project_ok hs hg
    refine ⟨fs, by rw [schema, hplan]; rfl, fun o' ho => ?_⟩
    rw [hplan, Plan.opened?_projection] at ho
    obtain ⟨o, hopen, ho⟩ := Option.bind_eq_some_iff.mp ho
    obtain ⟨xs, hxs, rfl⟩ := Option.map_eq_some_iff.mp ho
    exact ⟨o, hopen, .project hfs hxs⟩
  | filter e =>
    obtain ⟨field, -, -, -, hplan⟩ := filter_ok hs hg
    refine ⟨s, by rw [schema, hplan]; exact hs, fun o' ho => ?_⟩
    rw [hplan, Plan.opened?_selection] at ho
    obtain ⟨o, hopen, ho⟩ := Option.bind_eq_some_iff.mp ho
    obtain ⟨⟨φ, t⟩, hx, ho⟩ := Option.bind_eq_some_iff.mp ho
    split at ho
    · rename_i ht
      cases ht
      cases ho
      exact ⟨o, hopen, .filter hx⟩
    · cases ho
  | limit d =>
    obtain ⟨n, rfl⟩ := count_of_limit hg
    obtain ⟨s', hs', -, hplan⟩ := limit_ok hg
    obtain rfl : s = s' := Except.ok.inj (hs.symm.trans hs')
    refine ⟨s, by rw [schema, hplan]; rfl, fun o' ho => ?_⟩
    rw [hplan, Plan.opened?_limit] at ho
    obtain ⟨o, hopen, ho⟩ := Option.bind_eq_some_iff.mp ho
    obtain ⟨m, -, rfl⟩ := Option.map_eq_some_iff.mp ho
    exact ⟨o, hopen, .limit m⟩
  | aggregate gs as =>
    obtain ⟨fs, hfs, -, hplan⟩ := aggregate_ok hs hg
    refine ⟨fs, by rw [schema, hplan]; rfl, fun o' ho => ?_⟩
    rw [hplan, Plan.opened?_aggregate] at ho
    obtain ⟨o, hopen, ho⟩ := Option.bind_eq_some_iff.mp ho
    obtain ⟨ks, hks, ho⟩ := Option.bind_eq_some_iff.mp ho
    obtain ⟨xs, hxs, rfl⟩ := Option.map_eq_some_iff.mp ho
    refine ⟨o, hopen, ?_⟩
    split
    · rename_i hgs
      subst hgs
      exact .whole hfs hxs
    · rename_i hgs
      exact .group hgs hfs hks hxs

theorem steps_of_applyAll {calls : List Call} (hs : f.schema = .ok s)
    (hg : f.applyAll calls = .ok g) (ho : g.plan.opened? files = some o') :
    ∃ t o, g.schema = .ok t ∧ f.plan.opened? files = some o ∧ o.Steps s calls t o' := by
  induction calls generalizing f s with
  | nil =>
    cases hg
    exact ⟨s, o', hs, ho, .nil⟩
  | cons call calls ih =>
    obtain ⟨f', hf', hg⟩ := Outcome.bind_eq_ok.mp hg
    obtain ⟨s', hs', hfirst⟩ := step_of_apply hs hf'
    obtain ⟨t, o₁, ht, ho₁, hrest⟩ := ih hs' hg
    obtain ⟨o, hopen, hstep⟩ := hfirst o₁ ho₁
    exact ⟨t, o, ht, hopen, .cons (fun htable => Plan.even_opened hopen htable) hstep hrest⟩

section batches
variable {c : Context} {bs : List Batch} {calls : List Call}

theorem context_after (hf : (Source.batches bs).after c calls = .ok f) : f.context = c := by
  obtain ⟨f₀, hf₀, hf⟩ := Outcome.bind_eq_ok.mp hf
  obtain ⟨-, rfl⟩ := ofBatches_eq_ok.mp hf₀
  exact context_applyAll hf

theorem steps_of_after (hf : (Source.batches bs).after c calls = .ok f)
    (ho : f.plan.opened? files = some o') :
    (∀ b ∈ bs, b.schema = firstSchema bs) ∧ ∃ t o, f.schema = .ok t ∧
      Plan.opened? files (.memory bs (firstSchema bs)) = some o ∧
      o.Steps (firstSchema bs) calls t o' := by
  obtain ⟨f₀, hf₀, hf⟩ := Outcome.bind_eq_ok.mp hf
  obtain ⟨hs, rfl⟩ := ofBatches_eq_ok.mp hf₀
  exact ⟨hs, steps_of_applyAll rfl hf ho⟩

end batches

end Frame
end LazyQuery
