import LazyQuery.Engine.Planning
import LazyQuery.Proofs.Engine.Replacement

/-! What literals stand for: a type and one cell, whatever table they are used over. -/
namespace LazyQuery.Engine

def Term.value? : Term → Option (ColumnType × Deferred)
  | .constant c t => some (t, .ok c)
  | .cast e t => e.value?.bind fun (s, c) =>
    if castable s t then some (t, if s = t then c else c >>= castCell s t) else none
  | _ => none

def Term.isConstant : Term → Bool
  | .constant .. => true
  | .cast e _ => e.isConstant
  | _ => false

def meaning? (v : Datum) (t : DataType) : Option (ColumnType × Deferred) :=
  (t.column >>= fun c => constant c v).toOption.bind Term.value?

theorem resolve_of_value {t : Term} {ty : ColumnType} {c : Deferred} (h : t.value? = some (ty, c))
    (header : Header) :
    ∃ f, resolve header t = .ok (f, ty) ∧ f.isLiteral = true ∧
      ∀ groups columns, f.eval groups columns = .ok (.one c) := by
  induction t generalizing ty c with
  | constant cell type =>
    cases h
    exact ⟨_, rfl, rfl, fun _ _ => rfl⟩
  | cast e t ih =>
    obtain ⟨⟨s, d⟩, hd, h⟩ := Option.bind_eq_some_iff.mp h
    obtain ⟨f, hf, hl, he⟩ := ih hd
    dsimp only at h
    split at h
    · rename_i hc
      cases h
      refine ⟨f.coerced s t, ?_, ?_, fun groups columns => ?_⟩
      · rw [resolve, hf, Outcome.ok_bind]
        exact if_pos hc
      · unfold Formula.coerced
        split <;> exact hl
      · unfold Formula.coerced
        by_cases hst : s = t
        · rw [if_pos hst, if_pos hst]
          exact he groups columns
        · rw [if_neg hst, if_neg hst, Formula.eval, he]
          rfl
    · cases h
  | _ => cases h

theorem value_of_resolve {t : Term} (ht : t.isConstant = true) {header : Header} {f : Formula}
    {ty : ColumnType} (h : resolve header t = .ok (f, ty)) : ∃ c, t.value? = some (ty, c) := by
  induction t generalizing f ty with
  | constant cell type =>
    cases h
    exact ⟨_, rfl⟩
  | cast e t ih =>
    obtain ⟨⟨g, s⟩, hg, h⟩ := Outcome.bind_eq_ok.mp h
    obtain ⟨c, hc⟩ := ih ht hg
    dsimp only at h
    split at h
    · rename_i hs
      cases h
      refine ⟨if s = t then c else c >>= castCell s t, ?_⟩
      rw [Term.value?, hc, Option.bind_some]
      exact if_pos hs
    · cases h
  | _ => cases ht

theorem standsFor_of_value {t u : Term} (ht : t.isConstant = true) (h : u.value? = t.value?) :
    u.StandsFor t := by
  rintro header ⟨f, ty⟩ hf
  obtain ⟨c, hc⟩ := value_of_resolve ht hf
  obtain ⟨f', hf', hl, he⟩ := resolve_of_value hc header
  obtain ⟨g, hg, hl', he'⟩ := resolve_of_value (h.trans hc) header
  rw [hf] at hf'
  cases hf'
  have hsame : f.Same g := .literal hl hl' fun groups columns =>
    (he groups columns).trans (he' groups columns).symm
  exact ⟨(g, ty), hg, hsame, rfl⟩

theorem isConstant_of_constant {c : ColumnType} {v : Datum} {t : Term} (h : constant c v = .ok t) :
    t.isConstant = true := by
  cases v with
  | null | bool | int | float | text | bytes | time =>
    cases h
    rfl
  | date d =>
    simp only [constant] at h
    split at h
    all_goals
      cases h
      rfl
  | moment m =>
    simp only [constant, momentConstant] at h
    split at h
    · cases h
      rfl
    · obtain ⟨z, -, h⟩ := Outcome.bind_eq_ok.mp h
      cases h
      rfl
  | span m =>
    simp only [constant] at h
    split at h
    all_goals
      cases h
      rfl
  | decimal d =>
    cases h
    unfold decimalConstant
    dsimp only
    split
    all_goals rfl
  | list ds =>
    simp only [constant] at h
    split at h
    · obtain ⟨cs, -, h⟩ := Outcome.bind_eq_ok.mp h
      cases h
      rfl
    · cases h
  | record es =>
    simp only [constant] at h
    split at h
    · obtain ⟨cs, -, h⟩ := Outcome.bind_eq_ok.mp h
      cases h
      rfl
    · cases h
  | complex | type | schema | batch => cases h

theorem isConstant_of_literal {layout : Schema} {v : Datum} {t : DataType} {u : Term}
    (h : term layout (.literal v t) = .ok u) : u.isConstant = true := by
  obtain ⟨c, -, h⟩ := Outcome.bind_eq_ok.mp h
  exact isConstant_of_constant h

theorem meaning_of_literal {layout : Schema} {v : Datum} {t : DataType} {u : Term}
    (h : term layout (.literal v t) = .ok u) : meaning? v t = u.value? := by
  rw [meaning?, show (t.column >>= fun c => constant c v) = .ok u from h]
  rfl

theorem literal_of_meaning {v : Datum} {t : DataType} (h : (meaning? v t).isSome = true)
    (layout : Schema) : ∃ u, term layout (.literal v t) = .ok u := by
  cases hu : (t.column >>= fun c => constant c v) with
  | ok u => exact ⟨u, hu⟩
  | error e =>
    rw [meaning?, hu] at h
    cases h

end LazyQuery.Engine

namespace LazyQuery

mutual
/-- The literals that the term of an expression is made of. An aggregate has the term of its first
argument. -/
def Expr.literals : Expr → List (Datum × DataType)
  | .literal v t => [(v, t)]
  | .aggregate _ args _ => Expr.firstLiterals args
  | .binary l _ r => l.literals ++ r.literals
  | .not e | .isNull e | .isNotNull e | .cast e _ | .alias e _ => e.literals
  | .column _ | .wildcard | .bare => []

def Expr.firstLiterals : List Expr → List (Datum × DataType)
  | [] => []
  | e :: _ => e.literals
end

/-- The literals in the expressions of a plan. -/
def Plan.literals : Plan → List (Datum × DataType)
  | .empty _ | .memory .. | .file _ | .bare => []
  | .projection es p _ => es.flatMap Expr.literals ++ p.literals
  | .selection e p => e.literals ++ p.literals
  | .limit _ p _ => p.literals
  | .aggregate p gs as _ => (gs ++ as).flatMap Expr.literals ++ p.literals

namespace Engine

theorem meaning_of_resolve {layout : Schema} {header : Header} {e : Expr} {t : Term} {f : Formula}
    {ty : ColumnType} (ht : term layout e = .ok t) (hf : resolve header t = .ok (f, ty)) :
    ∀ l ∈ e.literals, (meaning? l.1 l.2).isSome = true := by
  match e with
  | .column i => simp [Expr.literals]
  | .literal v t' =>
    intro l hl
    obtain rfl := List.mem_singleton.mp hl
    obtain ⟨c, hc⟩ := value_of_resolve (isConstant_of_literal ht) hf
    rw [meaning_of_literal ht, hc]
    rfl
  | .wildcard => cases ht
  | .bare => cases ht
  | .aggregate name [] returns => simp [Expr.literals, Expr.firstLiterals]
  | .aggregate name (e :: _) returns =>
    simp only [term] at ht
    split at ht
    · cases ht
    · obtain ⟨u, hu, ht⟩ := Outcome.bind_eq_ok.mp ht
      obtain ⟨c, -, ht⟩ := Outcome.bind_eq_ok.mp ht
      cases ht
      obtain ⟨⟨g, s⟩, hg, -⟩ := Outcome.bind_eq_ok.mp hf
      obtain ⟨⟨g', s'⟩, hg', -⟩ := Outcome.bind_eq_ok.mp hg
      exact meaning_of_resolve (e := e) hu hg'
  | .binary l op r =>
    obtain ⟨a, ha, ht⟩ := Outcome.bind_eq_ok.mp ht
    obtain ⟨b, hb, ht⟩ := Outcome.bind_eq_ok.mp ht
    split at ht
    · cases ht
      obtain ⟨⟨g, s⟩, hg, hf⟩ := Outcome.bind_eq_ok.mp hf
      obtain ⟨⟨g', s'⟩, hg', -⟩ := Outcome.bind_eq_ok.mp hf
      intro x hx
      rcases List.mem_append.mp hx with hx | hx
      · exact meaning_of_resolve ha hg x hx
      · exact meaning_of_resolve hb hg' x hx
    · cases ht
  | .not e | .isNull e | .isNotNull e =>
    obtain ⟨u, hu, ht⟩ := Outcome.bind_eq_ok.mp ht
    cases ht
    obtain ⟨⟨g, s⟩, hg, -⟩ := Outcome.bind_eq_ok.mp hf
    exact meaning_of_resolve (e := e) hu hg
  | .cast e t' =>
    obtain ⟨u, hu, ht⟩ := Outcome.bind_eq_ok.mp ht
    obtain ⟨c, -, ht⟩ := Outcome.bind_eq_ok.mp ht
    cases ht
    obtain ⟨⟨g, s⟩, hg, -⟩ := Outcome.bind_eq_ok.mp hf
    exact meaning_of_resolve (e := e) hu hg
  | .alias e name =>
    obtain ⟨u, hu, ht⟩ := Outcome.bind_eq_ok.mp ht
    cases ht
    exact meaning_of_resolve (e := e) hu hf

theorem positionalTerms_cons (start : Nat) (layout : Schema) (e : Expr) (es : List Expr) :
    positionalTerms start layout (e :: es) =
      (term layout e >>= fun t => positionalTerms (start + 1) layout es >>= fun ts =>
        .ok ((positionalName start, t) :: ts)) := by
  rw [positionalTerms, List.zipIdx_cons, List.mapM_cons]
  simp only [bind_assoc, Outcome.ok_bind]
  rfl

theorem nil_of_positionalTerms {start : Nat} {layout : Schema} {es : List Expr}
    {ts : List (String × Term)} (h : positionalTerms start layout es = .ok ts) (ht : ts = []) :
    es = [] := by
  cases es with
  | nil => rfl
  | cons e es =>
    rw [positionalTerms_cons] at h
    obtain ⟨t, -, h⟩ := Outcome.bind_eq_ok.mp h
    obtain ⟨ts', -, h⟩ := Outcome.bind_eq_ok.mp h
    cases h
    cases ht

theorem meaning_of_resolveAll {layout : Schema} {header : Header} {start : Nat} {es : List Expr}
    {ts : List (String × Term)} {found : List (String × Formula × ColumnType)}
    (ht : positionalTerms start layout es = .ok ts) (hf : resolveAll header ts = .ok found) :
    ∀ l ∈ es.flatMap Expr.literals, (meaning? l.1 l.2).isSome = true := by
  induction es generalizing start ts found with
  | nil => simp
  | cons e es ih =>
    rw [positionalTerms_cons] at ht
    obtain ⟨t, he, ht⟩ := Outcome.bind_eq_ok.mp ht
    obtain ⟨ts', hes, ht⟩ := Outcome.bind_eq_ok.mp ht
    cases ht
    rw [resolveAll_cons] at hf
    obtain ⟨⟨f, ty⟩, hr, hf⟩ := Outcome.bind_eq_ok.mp hf
    obtain ⟨rest, hrest, -⟩ := Outcome.bind_eq_ok.mp hf
    intro l hl
    rw [List.flatMap_cons] at hl
    rcases List.mem_append.mp hl with hl | hl
    · exact meaning_of_resolve he hr l hl
    · exact ih hes hrest l hl

theorem meaning_of_header {p : Plan} {r : Relation} {layout : Schema} {files : Files} {h : Header}
    (hp : relationOf p = .ok (r, layout)) (hr : r.header files = .ok h) :
    ∀ l ∈ p.literals, (meaning? l.1 l.2).isSome = true := by
  induction p generalizing r layout h with
  | empty s => simp [Plan.literals]
  | memory bs s => simp [Plan.literals]
  | file scan => simp [Plan.literals]
  | bare => simp [Plan.literals]
  | projection es p s ih =>
    obtain ⟨⟨r', layout'⟩, hp', hp⟩ := Outcome.bind_eq_ok.mp hp
    obtain ⟨ts, hts, hp⟩ := Outcome.bind_eq_ok.mp hp
    cases hp
    obtain ⟨h', hr', hr⟩ := Outcome.bind_eq_ok.mp hr
    obtain ⟨found, hf, -⟩ := Outcome.bind_eq_ok.mp hr
    intro l hl
    rcases List.mem_append.mp hl with hl | hl
    · exact meaning_of_resolveAll hts hf l hl
    · exact ih hp' hr' l hl
  | selection e p ih =>
    obtain ⟨⟨r', layout'⟩, hp', hp⟩ := Outcome.bind_eq_ok.mp hp
    obtain ⟨t, ht, hp⟩ := Outcome.bind_eq_ok.mp hp
    cases hp
    obtain ⟨h', hr', hr⟩ := Outcome.bind_eq_ok.mp hr
    obtain ⟨⟨f, ty⟩, hf, -⟩ := Outcome.bind_eq_ok.mp hr
    intro l hl
    rcases List.mem_append.mp hl with hl | hl
    · exact meaning_of_resolve ht hf l hl
    · exact ih hp' hr' l hl
  | limit e p s ih =>
    obtain ⟨⟨r', layout'⟩, hp', hp⟩ := Outcome.bind_eq_ok.mp hp
    dsimp only at hp
    split at hp
    · obtain ⟨n, -, hp⟩ := Outcome.bind_eq_ok.mp hp
      cases hp
      exact ih hp' hr
    · cases hp
  | aggregate p gs as s ih =>
    obtain ⟨⟨r', layout'⟩, hp', hp⟩ := Outcome.bind_eq_ok.mp hp
    obtain ⟨ks, hks, hp⟩ := Outcome.bind_eq_ok.mp hp
    obtain ⟨us, hus, hp⟩ := Outcome.bind_eq_ok.mp hp
    cases hp
    intro l hl
    rw [Plan.literals, List.flatMap_append] at hl
    -- without groups the aggregates are a selection, whose header asks for them alone
    split at hr
    · rename_i hks'
      obtain rfl := nil_of_positionalTerms hks (List.isEmpty_iff.mp hks')
      obtain ⟨h', hr', hr⟩ := Outcome.bind_eq_ok.mp hr
      obtain ⟨found, hf, -⟩ := Outcome.bind_eq_ok.mp hr
      rcases List.mem_append.mp hl with hl | hl
      · exact meaning_of_resolveAll hus hf l hl
      · exact ih hp' hr' l hl
    · obtain ⟨h', hr', hr⟩ := Outcome.bind_eq_ok.mp hr
      obtain ⟨found, hf, hr⟩ := Outcome.bind_eq_ok.mp hr
      obtain ⟨found', hf', -⟩ := Outcome.bind_eq_ok.mp hr
      rcases List.mem_append.mp hl with hl | hl
      · rcases List.mem_append.mp hl with hl | hl
        · exact meaning_of_resolveAll hks hf l hl
        · exact meaning_of_resolveAll hus hf' l hl
      · exact ih hp' hr' l hl

end Engine
end LazyQuery
