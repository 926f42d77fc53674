import LazyQuery.Proofs.Engine.Grouping
import LazyQuery.Proofs.Engine.Renaming

/-! Expressions with aggregates. Where every column lies under an aggregate nothing differs by
row, and what is declared a whole number is one in so far that an aggregate of it exists
without groups as well. -/
namespace LazyQuery
open Engine

namespace Engine

section meeting
variable {op : Operator} {a b t : ColumnType} {m : Meeting}

theorem isNested_meetTimes (h : meetTimes op a b = .ok m) : m.result.isNested = false := by
  unfold meetTimes at h
  split at h <;> try first | (cases h; done) | (cases h; rfl)
  split at h
  · cases h
    rfl
  · cases h

theorem isNested_meetSpan (h : meetSpan op a b = .ok m) : m.result.isNested = false := by
  unfold meetSpan at h
  split at h <;> cases h <;> rfl

theorem isNested_meetNumbers (h : meetNumbers op t = .ok m) : m.result.isNested = false := by
  cases t with
  | integer k =>
    rw [meetNumbers] at h
    split at h <;> cases h <;> rfl
  | bool => cases op <;> cases h <;> rfl
  | string | binary =>
    rw [meetNumbers] at h
    split at h <;> cases h
    rfl
  | _ => cases h <;> rfl

theorem isNested_of_isTemporal (h : t.isTemporal = true) : t.isNested = false := by
  cases t <;> first | rfl | cases h

theorem isNested_meetArithmetic (h : meetArithmetic op a b = .ok m) :
    m.result.isNested = false := by
  unfold meetArithmetic at h
  split at h
  · exact isNested_meetTimes h
  · split at h
    · rename_i hb
      cases h
      exact isNested_of_isTemporal ((Bool.and_eq_true _ _).mp hb).2
    · split at h
      · rename_i ha
        cases h
        exact isNested_of_isTemporal ((Bool.and_eq_true _ _).mp ha).1
      · split at h
        · exact isNested_meetSpan h
        · split at h
          · cases h
          · split at h
            · exact isNested_meetNumbers h
            · cases h

theorem isNested_meet (h : meet op a b = .ok m) : m.result.isNested = false := by
  by_cases hc : op.isComparison = true
  · rw [meet_comparison_result hc h]
    rfl
  · rw [meet, if_neg hc] at h
    split at h
    · obtain ⟨-, -, h⟩ := Outcome.bind_eq_ok.mp h
      split at h <;> cases h <;> rfl
    · exact isNested_meetArithmetic h

end meeting

theorem type_of_cast {h : Header} {u : Term} {c : ColumnType} {x : Formula × ColumnType}
    (hx : resolve h (.cast u c) = .ok x) : x.2 = c := by
  obtain ⟨⟨f, s⟩, hf, -⟩ := Outcome.bind_eq_ok.mp hx
  obtain ⟨-, rfl⟩ := (resolve_cast hf).mp hx
  rfl

theorem isNested_of_literal {k : IntegerType} {v : Datum} {u : Term} {x : Formula × ColumnType}
    (hu : constant (.integer k) v = .ok u) (hx : resolve [] u = .ok x) : x.2.isNested = false := by
  have hcast : ∀ {e}, u = .cast e (.integer k) → x.2.isNested = false := by
    rintro e rfl
    rw [type_of_cast hx]
    rfl
  cases v with
  | null | bool | int | float | text | bytes | decimal =>
    cases hu
    exact hcast rfl
  | moment m =>
    obtain ⟨zone, -, hu⟩ := Outcome.bind_eq_ok.mp hu
    cases hu
    cases hx
    rfl
  | date | time | span =>
    cases hu
    cases hx
    rfl
  | _ => cases hu

end Engine

namespace Expr

def isWhole (s : Schema) (e : Expr) : Bool :=
  match derive s e with
  | .ok ⟨_, .leaf (.integer _), _⟩ => true
  | _ => false

/-- Every aggregate, at whatever depth, is taken over whole numbers. -/
def reducesWhole (s : Schema) : Expr → Bool
  | .aggregate _ (e :: _) _ => e.isWhole s && e.reducesWhole s
  | .binary l _ r => l.reducesWhole s && r.reducesWhole s
  | .not e | .isNull e | .isNotNull e | .cast e _ | .alias e _ => e.reducesWhole s
  | .aggregate _ [] _ | .column _ | .literal .. | .wildcard | .bare => true

/-- Every column lies under an aggregate. -/
def isBound : Expr → Bool
  | .column _ => false
  | .binary l _ r => l.isBound && r.isBound
  | .not e | .isNull e | .isNotNull e | .cast e _ | .alias e _ => e.isBound
  | .aggregate .. | .literal .. | .wildcard | .bare => true

theorem isWhole_iff {s : Schema} {e : Expr} :
    e.isWhole s = true ↔ ∃ f k, derive s e = .ok f ∧ f.type = .leaf (.integer k) := by
  unfold isWhole
  split
  · rename_i name k nullable h
    exact ⟨fun _ => ⟨_, k, h, rfl⟩, fun _ => rfl⟩
  · rename_i hne
    refine ⟨nofun, ?_⟩
    rintro ⟨⟨name, t, nullable⟩, k, h, rfl⟩
    exact absurd h (hne name k nullable)

end Expr

namespace Engine

theorem eval_coerced {groups : Option Partition} {columns : List (List Deferred)} (f : Formula)
    (s t : ColumnType) : (f.coerced s t).eval groups columns =
      (f.eval groups columns >>= fun e => .ok (if s = t then e else e.map (castCell s t))) := by
  unfold Formula.coerced
  split
  · cases f.eval groups columns <;> rfl
  · rfl

theorem isReducible_coerced (f : Formula) (s t : ColumnType) :
    (f.coerced s t).isReducible = f.isReducible := by
  unfold Formula.coerced
  split <;> rfl

theorem isReducible_of_isRowwise {f : Formula} (h : f.isRowwise = true) : f.isReducible = true := by
  induction f with
  | column | constant => rfl
  | reduce => cases h
  | combine k l r ihl ihr =>
    have h := (Bool.and_eq_true _ _).mp h
    rw [Formula.isReducible, ihl h.1, ihr h.2]
    rfl
  | cast _ _ _ ih => exact ih h
  | negate _ _ ih => exact ih h
  | isNull _ ih => exact ih h
  | isNotNull _ ih => exact ih h

theorem scope_ne_row {f : Formula} (h : f.isScalar = true) : f.scope ≠ .row := by
  induction f with
  | column => cases h
  | constant => exact nofun
  | reduce =>
    rw [Formula.scope]
    split <;> exact nofun
  | combine k l r ihl ihr =>
    have h := (Bool.and_eq_true _ _).mp h
    have hl := ihl h.1
    have hr := ihr h.2
    rw [Formula.scope]
    cases hls : l.scope <;> cases hrs : r.scope <;> simp_all [Scope.meet]
  | cast _ _ _ ih => exact ih h
  | negate _ _ ih => exact ih h
  | isNull _ ih => exact ih h
  | isNotNull _ ih => exact ih h

section evaluation
variable {columns : List (List Deferred)}

theorem scope_eval_none {f : Formula} {e : Extent} (h : f.eval none columns = .ok e) :
    e.scope = if f.isScalar then .all else .row := by
  induction f generalizing e with
  | column i =>
    rw [Formula.eval] at h
    split at h
    · cases h
      rfl
    · cases h
  | constant c =>
    cases h
    rfl
  | combine k l r ihl ihr =>
    obtain ⟨x, hx, h⟩ := Outcome.bind_eq_ok.mp h
    obtain ⟨y, hy, h⟩ := Outcome.bind_eq_ok.mp h
    cases h
    rw [Extent.scope_combine, ihl hx, ihr hy, Formula.isScalar]
    cases l.isScalar <;> cases r.isScalar <;> rfl
  | reduce r t f ih =>
    obtain ⟨x, hx, h⟩ := Outcome.bind_eq_ok.mp h
    have hscope := ih hx
    split at h
    · cases h
      cases x with
      | one | rows => rfl
      | groups => split at hscope <;> cases hscope
    · cases h
  | cast s t f ih =>
    obtain ⟨x, hx, h⟩ := Outcome.bind_eq_ok.mp h
    cases h
    exact (Extent.scope_map ..).trans (ih hx)
  | negate t f ih =>
    obtain ⟨x, hx, h⟩ := Outcome.bind_eq_ok.mp h
    cases h
    exact (Extent.scope_map ..).trans (ih hx)
  | isNull f ih =>
    obtain ⟨x, hx, h⟩ := Outcome.bind_eq_ok.mp h
    cases h
    exact (Extent.scope_map ..).trans (ih hx)
  | isNotNull f ih =>
    obtain ⟨x, hx, h⟩ := Outcome.bind_eq_ok.mp h
    cases h
    exact (Extent.scope_map ..).trans (ih hx)

theorem isOne_of_scope {e : Extent} (h : e.scope = .all) : e.isOne = true := by
  cases e <;> first | rfl | cases h

theorem all_isOne_scalar {fs : List Formula} (hs : ∀ f ∈ fs, f.isScalar = true)
    {es : List Extent}
    (h : fs.mapM (Formula.eval none columns) = .ok es) : es.all Extent.isOne = true := by
  rw [Outcome.mapM_eq_ok] at h
  induction h with
  | nil => rfl
  | cons hfe _ ih =>
    rw [List.forall_mem_cons] at hs
    have hscope := scope_eval_none hfe
    rw [if_pos hs.1] at hscope
    rw [List.all_cons, isOne_of_scope hscope, ih hs.2]
    rfl

end evaluation
end Engine

namespace Engine.Denotes
variable {find : Int → Option (Nat × ColumnType)} {s : Schema} {e : Expr} {f : Formula}
    {t : ColumnType}

theorem isNested (hd : Denotes find e f t)
    (hfind : ∀ i ∈ e.reached, ∀ k u, find i = some (k, u) →
      ∃ g, s.at? i = some g ∧ u = g.type.stored) {field : Field}
    (hfield : Expr.derive s e = .ok field) {k : IntegerType}
    (hk : field.type = .leaf (.integer k)) :
    t.isNested = false := by
  induction hd generalizing field with
  | column hi =>
    obtain ⟨f, hf, rfl⟩ := hfind _ (List.mem_singleton.mpr rfl) _ _ hi
    rw [Expr.derive, hf] at hfield
    cases hfield
    rw [hk]
    rfl
  | literal hu hf =>
    cases hfield
    subst hk
    exact isNested_of_literal hu hf
  | aggregate _ _ hc _ _ =>
    obtain ⟨-, -, hfield⟩ := Outcome.bind_eq_ok.mp hfield
    cases hfield
    subst hk
    cases hc
    rfl
  | binary _ _ _ hm => exact isNested_meet hm
  | not _ hs =>
    obtain ⟨inner, -, hfield⟩ := Outcome.bind_eq_ok.mp hfield
    cases hfield
    cases hk
  | isNull => rfl
  | isNotNull => rfl
  | cast _ hc _ =>
    obtain ⟨inner, -, hfield⟩ := Outcome.bind_eq_ok.mp hfield
    cases hfield
    subst hk
    cases hc
    rfl
  | «alias» _ ih =>
    obtain ⟨inner, hinner, hfield⟩ := Outcome.bind_eq_ok.mp hfield
    cases hfield
    exact ih hfind hinner hk

theorem isReducible (hd : Denotes find e f t)
    (hfind : ∀ i ∈ e.reached, ∀ k u, find i = some (k, u) →
      ∃ g, s.at? i = some g ∧ u = g.type.stored) (he : e.reducesWhole s = true) :
    f.isReducible = true := by
  induction hd with
  | column => rfl
  | literal hu hf => exact isReducible_of_isRowwise (formula_of_literal hu hf).2
  | aggregate _ hd _ _ _ ih =>
    have he := (Bool.and_eq_true _ _).mp he
    obtain ⟨field, k, hfield, hk⟩ := Expr.isWhole_iff.mp he.1
    rw [isReducible_coerced, Formula.isReducible, ih hfind he.2, reducible,
      hd.isNested hfind hfield hk]
    rfl
  | binary _ _ _ _ ihl ihr =>
    have he := (Bool.and_eq_true _ _).mp he
    have hl := ihl (fun i hi => hfind i (List.mem_append_left _ hi)) he.1
    have hr := ihr (fun i hi => hfind i (List.mem_append_right _ hi)) he.2
    rw [Formula.isReducible, isReducible_coerced, isReducible_coerced, hl, hr]
    rfl
  | cast _ _ _ ih => exact (isReducible_coerced ..).trans (ih hfind he)
  | not _ _ ih => exact ih hfind he
  | isNull _ ih => exact ih hfind he
  | isNotNull _ ih => exact ih hfind he
  | «alias» _ ih => exact ih hfind he

/-- Values depend on the columns that are got to, and on nothing else of a table. -/
theorem eval_congr (hd : Denotes find e f t) {columns columns' : List (List Deferred)}
    (hc : ∀ i ∈ e.reached, ∀ k u, find i = some (k, u) → columns[k]? = columns'[k]?)
    (groups : Option Partition) : f.eval groups columns = f.eval groups columns' := by
  induction hd with
  | column hi => rw [Formula.eval, Formula.eval, hc _ (List.mem_singleton.mpr rfl) _ _ hi]
  | @literal v d u f t hu hf =>
    have hterm : term [] (.literal v d) = .ok u := hu
    obtain ⟨x, hx⟩ := value_of_resolve (isConstant_of_literal hterm) hf
    obtain ⟨g, hg, -, he⟩ := resolve_of_value hx []
    cases hf.symm.trans hg
    rw [he, he]
  | aggregate _ _ _ _ _ ih => rw [eval_coerced, eval_coerced, Formula.eval, Formula.eval, ih hc]
  | binary _ _ _ _ ihl ihr =>
    have hl := ihl fun i hi => hc i (List.mem_append_left _ hi)
    have hr := ihr fun i hi => hc i (List.mem_append_right _ hi)
    simp only [Formula.eval, eval_coerced, hl, hr]
  | cast _ _ _ ih => rw [eval_coerced, eval_coerced, ih hc]
  | not _ _ ih => rw [Formula.eval, Formula.eval, ih hc]
  | isNull _ ih => rw [Formula.eval, Formula.eval, ih hc]
  | isNotNull _ ih => rw [Formula.eval, Formula.eval, ih hc]
  | «alias» _ ih => exact ih hc

theorem isScalar_eq_isBound (hd : Denotes find e f t) : f.isScalar = e.isBound := by
  induction hd with
  | column => rfl
  | literal hu hf => exact (formula_of_literal hu hf).1
  | aggregate => exact isScalar_coerced ..
  | binary _ _ _ _ ihl ihr =>
    rw [Formula.isScalar, isScalar_coerced, isScalar_coerced, ihl, ihr, Expr.isBound]
  | cast _ _ _ ih => exact (isScalar_coerced ..).trans ih
  | not _ _ ih => exact ih
  | isNull _ ih => exact ih
  | isNotNull _ ih => exact ih
  | «alias» _ ih => exact ih

theorem isScalar_of_isBound (hd : Denotes find e f t) (he : e.isBound = true) : f.isScalar = true :=
  hd.isScalar_eq_isBound.trans he

end Engine.Denotes

end LazyQuery
