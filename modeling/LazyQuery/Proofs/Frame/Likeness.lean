import LazyQuery.Proofs.Engine.Opening
import LazyQuery.Proofs.Frame.Building

/-! Frames from different sources on which the same calls are made. A call looks at nothing of
a frame but its schema, and what its plan comes to depends on nothing of the plan before but
what that came to. -/
namespace LazyQuery
open Engine

namespace Frame
open Outcome
variable {files : Files} {f g : Frame}

/-- The frame that calls make of a source. -/
def Source.after (source : Source) (c : Context) (calls : List Call) : Outcome Frame := do
  (← source.frame c).applyAll calls

/-- The same calls have led from the first two frames to the last two: these have one schema, and
come to the same if those did. -/
structure Abreast (files : Files) (f g f' g' : Frame) : Prop where
  schema : f'.schema = g'.schema
  opened : f.plan.opened? files = g.plan.opened? files →
  f'.plan.opened? files = g'.plan.opened? files

theorem abreast_project (h : f.schema = g.schema) (es : List Expr) :
    Related (Abreast files f g) (f.project es) (g.project es) := by
  unfold project
  rw [h]
  cases g.schema with
  | error e => exact .error e
  | ok s =>
    rw [ok_bind, ok_bind]
    dsimp only
    cases Expr.fields s (Expr.expandWildcards s.length es) with
    | error e => exact .error e
    | ok fs =>
      refine .ok ⟨rfl, fun ho => ?_⟩
      dsimp only
      rw [Plan.opened?_projection, Plan.opened?_projection, ho]

theorem abreast_filter (h : f.schema = g.schema) (e : Expr) :
    Related (Abreast files f g) (f.filter e) (g.filter e) := by
  unfold filter
  rw [h]
  cases g.schema with
  | error f => exact .error f
  | ok s =>
    rw [ok_bind, ok_bind]
    cases Expr.field s e with
    | error f => exact .error f
    | ok field =>
      rw [ok_bind, ok_bind]
      split
      · refine .ok ⟨h, fun ho => ?_⟩
        dsimp only
        rw [Plan.opened?_selection, Plan.opened?_selection, ho]
      · exact .error _

theorem abreast_limit (h : f.schema = g.schema) (d : Datum) :
    Related (Abreast files f g) (f.limit d) (g.limit d) := by
  unfold limit
  rw [h]
  split
  · cases g.schema with
    | error e => exact .error e
    | ok s =>
      refine .ok ⟨rfl, fun ho => ?_⟩
      dsimp only
      rw [Plan.opened?_limit, Plan.opened?_limit, ho]
  · exact .error _

theorem abreast_aggregate (h : f.schema = g.schema) (gs as : List Expr) :
    Related (Abreast files f g) (f.aggregate gs as) (g.aggregate gs as) := by
  unfold aggregate
  rw [h]
  cases g.schema with
  | error e => exact .error e
  | ok s =>
    rw [ok_bind, ok_bind]
    cases Expr.fields s (gs ++ as) with
    | error e => exact .error e
    | ok fs =>
      refine .ok ⟨rfl, fun ho => ?_⟩
      dsimp only
      rw [Plan.opened?_aggregate, Plan.opened?_aggregate, ho]

theorem abreast_apply (h : f.schema = g.schema) (call : Call) :
    Related (Abreast files f g) (f.apply call) (g.apply call) := by
  cases call with
  | project es => exact abreast_project h es
  | filter e => exact abreast_filter h e
  | limit d => exact abreast_limit h d
  | aggregate gs as => exact abreast_aggregate h gs as

theorem abreast_applyAll (h : f.schema = g.schema) (calls : List Call) :
    Related (Abreast files f g) (f.applyAll calls) (g.applyAll calls) := by
  induction calls generalizing f g with
  | nil => exact .ok ⟨h, id⟩
  | cons call calls ih =>
    have hnext : Related (Abreast files f g) (f.apply call) (g.apply call) := abreast_apply h call
    refine hnext.bind fun f' g' h' => ?_
    exact (ih h'.schema).mono fun _ _ hlast =>
      ⟨hlast.schema, fun ho => hlast.opened (h'.opened ho)⟩

end Frame
end LazyQuery
