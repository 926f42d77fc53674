import LazyQuery.Proofs.Engine.Evenness
import LazyQuery.Proofs.Engine.Selection

/-! Predicates that are moved down. A relation that runs under predicates gives those of its rows at
which they are true, although they are asked about other rows than those. Quotients are the
exception: rows that a predicate takes away below can leave one alone in a division above. -/
namespace LazyQuery.Engine

namespace Formula

end Formula

section picking
variable {ps fs : List Formula} {rows : List (List Deferred)} {width : Nat} {t : Table}

end picking

namespace Relation

/-- No predicate is moved further down: the relation is run without any, and its rows are picked. -/
def Halts (files : Files) (r : Relation) : Prop :=
  ∃ x : Outcome Table, ∀ ps, r.run files ps none = x >>= Table.pick ps none

/-- A predicate that is moved down takes away the rows that it takes away above. What it is moved
past divides no row by a value for all rows, and neither does the predicate. -/
def Calm (files : Files) (predicate : Formula) : Relation → Prop
  | .select choice r => ∀ h found, r.header files = .ok h → choice.resolve h = .ok found →
      isRowByRow (found.map (·.2.1)) = true →
      r.Calm files predicate ∧ ∀ f ∈ predicate :: found.map (·.2.1), f.isSteady = true
  | .filter p r => ∀ h f t, r.header files = .ok h → resolve h p = .ok (f, t) →
      f.isRowwise = true →
      r.Calm files predicate ∧ predicate.isSteady = true ∧ f.isSteady = true
  | .table .. | .delimited .. | .columnar _ | .take .. | .group .. => True

variable {files : Files} {r : Relation} {fs ps qs : List Formula}

section halting
variable {h : Header} {bound : Option Nat} {t t' : Table}

theorem Halts.exists_rows (hh : r.Halts files) (hr : r.Even) (h : r.run files ps none = .ok t) :
    ∃ width rows, ∀ qs, r.run files qs none = Table.pick qs none (Table.ofRows width rows) := by
  obtain ⟨x, hx⟩ := hh
  rw [hx] at h
  obtain ⟨u, rfl, -⟩ := Outcome.bind_eq_ok.mp h
  obtain ⟨rows, -, he⟩ := Table.exists_rows (even_run hr (hx []))
  exact ⟨_, rows, fun qs => by rw [hx qs, Outcome.ok_bind]; exact congrArg _ he⟩

end halting

section pushing
variable {predicate : Formula} {t t' : Table}

end pushing

end Relation
end LazyQuery.Engine
