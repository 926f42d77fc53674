import LazyQuery.Proofs.Engine.Aggregation

/-! What a predicate can be by its type. The execution type of an expression is that of truth
values, that of nothing but nulls, or another; and which of the three it is can be told from the
expression and from which of the three its columns are. -/
namespace LazyQuery
open Engine

/-- What the values of a type are as verdicts: true or false, missing, or no verdicts at all. -/
inductive Standing
  | truth | nothing | other
deriving DecidableEq

namespace Standing

def meet : Standing → Standing → Standing
  | .nothing, a | a, .nothing => a
  | .truth, .truth => .truth
  | _, _ => .other

/-- Of numbers that are computed, which are no verdicts. -/
def computed : Standing → Standing
  | .nothing => .nothing
  | _ => .other

/-- What an operator makes of two sides: a comparison a verdict, a connective what the sides are. -/
def combined (o : Operator) (a b : Standing) : Standing :=
  if o.isComparison then .truth else if o.isLogical then a.meet b else (a.meet b).computed

theorem meet_nothing (a : Standing) : a.meet .nothing = a := by cases a <;> rfl

theorem meet_other (a : Standing) : a.meet .other = .other := by cases a <;> rfl

theorem other_meet (a : Standing) : other.meet a = .other := by cases a <;> rfl

theorem combined_of_isComparison {o : Operator} (h : o.isComparison = true) (a b : Standing) :
    combined o a b = .truth := if_pos h

theorem ne_other_of_combined {o : Operator} {a b : Standing} (ho : ¬o.isComparison = true)
    (h : combined o a b ≠ .other) : a ≠ .other ∧ b ≠ .other := by
  rw [combined, if_neg ho] at h
  constructor
  · rintro rfl
    rw [other_meet] at h
    exact h (ite_self _)
  · rintro rfl
    rw [meet_other] at h
    exact h (ite_self _)

end Standing

def Engine.ColumnType.standing : ColumnType → Standing
  | .bool => .truth
  | .null => .nothing
  | _ => .other

def DataType.standing : DataType → Standing
  | .leaf .bool => .truth
  | .leaf .null => .nothing
  | _ => .other

/-- Days, times and spans keep their types whatever they are declared. -/
def Datum.standing (t : DataType) : Datum → Standing
  | .date _ | .moment _ | .time _ | .span _ => .other
  | _ => t.standing

/-- What the values of an expression are where the columns are `ks`. -/
def Expr.standing (ks : List Standing) : Expr → Standing
  | .column i => ((Schema.position? ks.length i).bind (ks[·]?)).getD .other
  | .literal v t => v.standing t
  | .aggregate _ _ t | .cast _ t => t.standing
  | .binary l op r =>
    ((Operator.ofText? op).map fun o => .combined o (l.standing ks) (r.standing ks)).getD .other
  | .not e | .alias e _ => e.standing ks
  | .isNull _ | .isNotNull _ => .truth
  | .wildcard | .bare => .other

namespace Engine

section meeting
variable {op : Operator} {a b t : ColumnType} {m : Meeting}

theorem ColumnType.standing_eq_truth : t.standing = .truth ↔ t = .bool := by
  cases t <;> simp [standing]

theorem standing_of_isTemporal (h : t.isTemporal = true) : t.standing = .other := by
  cases t <;> first | rfl | cases h

theorem standing_countType (h : countType? a b = some t) :
    t.standing = .other ∧ b.standing = .other := by
  unfold countType? at h
  split at h
  · cases h
    exact ⟨by split <;> rfl, rfl⟩
  · cases h
    exact ⟨rfl, rfl⟩
  · split at h <;> cases h
    exact ⟨rfl, rfl⟩
  · split at h <;> cases h
    exact ⟨rfl, rfl⟩
  · cases h
    exact ⟨by split <;> rfl, rfl⟩
  · cases h
    exact ⟨rfl, rfl⟩
  · cases h

theorem standing_commonInteger (j k : IntegerType) : (commonInteger j k).standing = .other := by
  cases j <;> cases k <;> rfl

theorem standing_withInteger (float : ColumnType) (k : IntegerType) :
    (withInteger float k).standing = .other := by
  unfold withInteger
  split
  · rfl
  · split <;> rfl

theorem standing_commonType (h : commonType? a b = some t) :
    t.standing = a.standing.meet b.standing := by
  unfold commonType? at h
  split at h
  · rename_i hab
    cases h
    subst hab
    cases a <;> rfl
  · split at h
    all_goals first
      | (cases h; first | rfl | exact standing_commonInteger .. | exact standing_withInteger ..)
      | skip
    · cases h
      exact (Standing.meet_nothing _).symm
    · split at h <;> cases h
      rfl
    · obtain ⟨item, -, rfl⟩ := Option.map_eq_some_iff.mp h
      rfl
    · split at h
      · rename_i ha
        rw [standing_of_isTemporal ha, Standing.other_meet, (standing_countType h).1]
      · split at h
        · rename_i hb
          rw [standing_of_isTemporal hb, Standing.meet_other, (standing_countType h).1]
        · cases h

theorem standing_meetLogic (h : meetLogic op a b = .ok m) :
    m.result.standing = a.standing.meet b.standing := by
  obtain ⟨-, -, h⟩ := Outcome.bind_eq_ok.mp h
  split at h
  all_goals first
    | (rename_i ht; cases h; exact standing_commonType ht)
    | cases h

theorem standing_meetTimes (h : meetTimes op a b = .ok m) : m.result.standing = .other := by
  unfold meetTimes at h
  split at h <;> try first | (cases h; done) | (cases h; rfl)
  split at h
  · cases h
    rfl
  · cases h

theorem standing_meetSpan (h : meetSpan op a b = .ok m) : m.result.standing = .other := by
  unfold meetSpan at h
  split at h <;> cases h <;> rfl

theorem standing_meetNumbers (h : meetNumbers op t = .ok m) :
    m.result.standing = t.standing.computed := by
  cases t with
  | integer k =>
    rw [meetNumbers] at h
    split at h <;> cases h <;> rfl
  | bool => cases op <;> cases h <;> rfl
  | string | binary =>
    rw [meetNumbers] at h
    split at h <;> cases h
    rfl
  | _ => cases h <;> rfl

theorem standing_meetArithmetic (h : meetArithmetic op a b = .ok m) :
    m.result.standing = (a.standing.meet b.standing).computed := by
  unfold meetArithmetic at h
  split at h
  · rename_i hab
    have hab := (Bool.and_eq_true _ _).mp hab
    rw [standing_meetTimes h, standing_of_isTemporal hab.1, Standing.other_meet]
    rfl
  · split at h
    · rename_i hb
      cases h
      rw [standing_of_isTemporal ((Bool.and_eq_true _ _).mp hb).2, Standing.meet_other]
      rfl
    · split at h
      · rename_i ha
        cases h
        rw [standing_of_isTemporal ((Bool.and_eq_true _ _).mp ha).1, Standing.other_meet]
        rfl
      · split at h
        · rename_i hab
          rw [standing_meetSpan h]
          rcases (Bool.or_eq_true _ _).mp hab with ha | hb
          · rw [standing_of_isTemporal ha, Standing.other_meet]
            rfl
          · rw [standing_of_isTemporal hb, Standing.meet_other]
            rfl
        · split at h
          · cases h
          · split at h
            · rename_i ht
              rw [standing_meetNumbers h, standing_commonType ht]
            · cases h

theorem standing_meet (h : meet op a b = .ok m) :
    m.result.standing = .combined op a.standing b.standing := by
  unfold Standing.combined
  by_cases hc : op.isComparison = true
  · rw [if_pos hc, meet_comparison_result hc h]
    rfl
  · rw [meet, if_neg hc] at h
    rw [if_neg hc]
    split at h
    · rename_i hl
      rw [if_pos hl, standing_meetLogic h]
    · rename_i hl
      rw [if_neg hl, standing_meetArithmetic h]

end meeting

theorem standing_of_column {t : DataType} {c : ColumnType} (h : t.column = .ok c) :
    c.standing = t.standing := by
  cases t with
  | leaf k =>
    cases k <;> cases h <;> rfl
  | list f | largeList f | struct fs =>
    rw [DataType.column] at h
    obtain ⟨u, hu, h⟩ := Outcome.bind_eq_ok.mp h
    cases h
    rfl
  | _ => cases h

theorem standing_of_literal {v : Datum} {t : DataType} {u : Term} {x : Formula × ColumnType}
    (hu : (t.column >>= fun c => constant c v) = .ok u) (hx : resolve [] u = .ok x) :
    x.2.standing = v.standing t := by
  obtain ⟨c, hc, hu⟩ := Outcome.bind_eq_ok.mp hu
  have hsame := standing_of_column hc
  have hcast : ∀ {e}, u = .cast e c → x.2.standing = t.standing := by
    rintro e rfl
    rw [type_of_cast hx, hsame]
  cases v with
  | null | bool | int | float | text | bytes =>
    cases hu
    exact hcast rfl
  | decimal d =>
    cases hu
    unfold decimalConstant at hx
    dsimp only at hx
    split at hx
    · cases hx
      exact hsame
    all_goals
      rw [type_of_cast hx]
      exact hsame
  | moment m =>
    simp only [constant, momentConstant] at hu
    split at hu
    · cases hu
      cases hx
      rfl
    · obtain ⟨zone, -, hu⟩ := Outcome.bind_eq_ok.mp hu
      cases hu
      cases hx
      rfl
  | date | span =>
    simp only [constant] at hu
    split at hu
    all_goals
      cases hu
      cases hx
      rfl
  | time =>
    cases hu
    cases hx
    rfl
  | list | record =>
    simp only [constant] at hu
    split at hu
    · obtain ⟨cells, -, hu⟩ := Outcome.bind_eq_ok.mp hu
      cases hu
      cases hx
      exact hsame
    · cases hu
  | complex | type | schema | batch => cases hu

end Engine

/-- The execution type of an expression is what the expression is where its columns are
what theirs are. -/
theorem Engine.Denotes.standing_eq {find : Int → Option (Nat × ColumnType)} {ks : List Standing}
    {e : Expr} {f : Formula} {t : ColumnType}
    (hfind : ∀ i k t, find i = some (k, t) →
      Schema.position? ks.length i = some k ∧ ks[k]? = some t.standing)
    (hd : Denotes find e f t) : t.standing = e.standing ks := by
  induction hd with
  | column hi =>
    obtain ⟨hk, ht⟩ := hfind _ _ _ hi
    rw [Expr.standing, hk, Option.bind_some, ht]
    rfl
  | literal hu hx => exact standing_of_literal hu hx
  | aggregate _ _ hc _ _ _ => exact standing_of_column hc
  | binary _ _ ho hm ihl ihr =>
    rw [standing_meet hm, ihl, ihr, Expr.standing, ho]
    rfl
  | not _ _ ih => exact ih
  | isNull => rfl
  | isNotNull => rfl
  | cast _ hc _ _ => exact standing_of_column hc
  | «alias» _ ih => exact ih

/-- What is a verdict, or nothing but nulls, without anything being known of the columns is so
whatever the columns are. -/
theorem Expr.standing_of_nil {e : Expr} (h : e.standing [] ≠ .other) (ks : List Standing) :
    e.standing ks = e.standing [] := by
  match e with
  | .column i =>
    refine absurd ?_ h
    rw [standing]
    cases Schema.position? [].length i <;> rfl
  | .binary l op r =>
    rw [standing] at h ⊢
    rw [standing]
    cases ho : Operator.ofText? op with
    | none => rfl
    | some o =>
      rw [ho] at h
      dsimp only [Option.map_some, Option.getD_some] at h ⊢
      by_cases hc : o.isComparison = true
      · rw [Standing.combined_of_isComparison hc, Standing.combined_of_isComparison hc]
      · obtain ⟨hl, hr⟩ := Standing.ne_other_of_combined hc h
        rw [standing_of_nil hl ks, standing_of_nil hr ks]
  | .not e => exact standing_of_nil (e := e) h ks
  | .alias e _ => exact standing_of_nil (e := e) h ks
  | .literal .. | .aggregate .. | .cast .. | .isNull _ | .isNotNull _ | .wildcard | .bare => rfl

end LazyQuery
