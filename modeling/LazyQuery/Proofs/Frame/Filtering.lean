import LazyQuery.Proofs.Engine.Handing
import LazyQuery.Proofs.Frame.Height

/-! Filtering before a projection and after it. A projection takes each row from one row, so that
the rows of a filtered frame project to those rows of the projection for which the predicate is
true. One thing stands out: a column divided by a value for all rows is rounded otherwise where it
has but one row. It may have but one row because a predicate has been moved down, to below where the
column is divided. -/
namespace LazyQuery
open Engine

/-- The predicate takes away the same rows of the plan wherever it is moved to. -/
def Plan.Calm (files : Files) (p : Plan) (e : Expr) : Prop :=
  ∀ r layout h x, relationOf p = .ok (r, layout) → r.header files = .ok h →
    formula? layout h e = some x → r.Calm files x.1

namespace Expr

theorem isWildcard_of_columns {e : Expr} (h : e.columns ≠ []) : e.isWildcard = false := by
  cases hw : e.isWildcard with
  | false => rfl
  | true => exact absurd (columns_of_isWildcard hw) h

theorem isWildcard_of_derive {s : Schema} {e : Expr} {f : Field} (h : derive s e = .ok f) :
    e.isWildcard = false := by
  cases e with
  | wildcard => cases h
  | _ => rfl

theorem expandWildcards_eq {n : Nat} {es : List Expr} (h : ∀ e ∈ es, e.isWildcard = false) :
    expandWildcards n es = es := by
  induction es with
  | nil => rfl
  | cons e es ih =>
    have he := h e (List.mem_cons_self ..)
    have hes := ih fun d hd => h d (List.mem_cons_of_mem _ hd)
    rw [expandWildcards_cons, he, hes]
    rfl

/-- Fields of expressions beside others are those that they have by themselves. -/
theorem deriveAll_append {s fs : Schema} {es es' : List Expr}
    (h : deriveAll s (es ++ es') = .ok fs) :
    ∃ gs as, deriveAll s es = .ok gs ∧ deriveAll s es' = .ok as ∧ fs = gs ++ as := by
  induction es generalizing fs with
  | nil => exact ⟨[], fs, rfl, h, rfl⟩
  | cons e es ih =>
    obtain ⟨f, hf, h⟩ := Outcome.bind_eq_ok.mp h
    obtain ⟨rest, hrest, h⟩ := Outcome.bind_eq_ok.mp h
    cases h
    obtain ⟨gs, as, hgs, has, rfl⟩ := ih hrest
    exact ⟨f :: gs, as,
      Outcome.bind_eq_ok.mpr ⟨f, hf, Outcome.bind_eq_ok.mpr ⟨gs, hgs, rfl⟩⟩, has, rfl⟩

end Expr

namespace Frame
variable {files : Files} {settings : Assignments} {f g h k : Frame}

theorem any_varying {es : List Expr} {xs : List (Formula × ColumnType)} (hes : es ≠ [])
    (hc : ∀ e ∈ es, e.columns ≠ [])
    (hs : xs.map (·.1.isScalar) = es.map (·.columns.isEmpty)) :
    xs.any (!·.1.isScalar) = true := by
  obtain ⟨e, es, rfl⟩ := List.exists_cons_of_ne_nil hes
  cases xs with
  | nil => cases hs
  | cons x xs =>
    have he : e.columns.isEmpty = false := by simpa using hc e (List.mem_cons_self ..)
    have hx : x.1.isScalar = e.columns.isEmpty := (List.cons.inj hs).1
    rw [List.any_cons, hx, he]
    rfl

def numbers (xs : List Float) : Frame where
  plan := .memory [⟨[⟨"x", .double, true⟩], xs.length, [xs.map Cell.float], rfl, by simp⟩]
    [⟨"x", .double, true⟩]
  context := .here [] .standard

def share : Expr := .alias (.binary (.column 0) "/" (.literal (.float 49.0) .double)) "share"

end Frame
end LazyQuery
