import LazyQuery.Proofs.Engine.Literal

/-! What expressions come to over a table: a formula and its type. They depend on nothing but the
positions and types of the columns that the expression gets to, and without aggregates a formula has
one value for all rows exactly if it has no column. -/
namespace LazyQuery
open Engine

namespace Expr

/-- The columns that the term of an expression is made of. An aggregate has the term of its first
argument. -/
def reached : Expr → List Int
  | .column i => [i]
  | .aggregate _ (e :: _) _ => e.reached
  | .binary l _ r => l.reached ++ r.reached
  | .not e | .isNull e | .isNotNull e | .cast e _ | .alias e _ => e.reached
  | .aggregate _ [] _ | .literal .. | .wildcard | .bare => []

/-- No aggregate at any depth. -/
def isPlain : Expr → Bool
  | .aggregate .. => false
  | .binary l _ r => l.isPlain && r.isPlain
  | .not e | .isNull e | .isNotNull e | .cast e _ | .alias e _ => e.isPlain
  | .column _ | .literal .. | .wildcard | .bare => true

theorem reached_of_isPlain {e : Expr} (h : e.isPlain = true) : e.reached = e.columns := by
  match e with
  | .column _ | .literal .. | .wildcard | .bare => simp [reached, columns]
  | .aggregate .. => cases h
  | .binary l _ r =>
    have hlr : l.isPlain = true ∧ r.isPlain = true := by simpa [isPlain] using h
    simp [reached, columns, reached_of_isPlain hlr.1, reached_of_isPlain hlr.2]
  | .not e | .isNull e | .isNotNull e | .cast e _ | .alias e _ =>
    have he : e.isPlain = true := by simpa [isPlain] using h
    simp [reached, columns, reached_of_isPlain he]

end Expr

namespace Engine

def ColumnType.isNegatable : ColumnType → Bool
  | .bool | .integer _ | .null => true
  | _ => false

/-- Position and type of the column that a layout names, in a table with this header. -/
def columnAt? (layout : Schema) (h : Header) (i : Int) : Option (Nat × ColumnType) :=
  (layout.at? i).bind fun f => (findColumn h f.name).toOption

/-- An expression and its formula and type, where columns are found by `find`. -/
inductive Denotes (find : Int → Option (Nat × ColumnType)) : Expr → Formula → ColumnType →
    Prop
  | column {i : Int} {k : Nat} {t : ColumnType} :
    find i = some (k, t) → Denotes find (.column i) (.column k) t
  | literal {v : Datum} {d : DataType} {u : Term} {f : Formula} {t : ColumnType} :
    (d.column >>= fun c => constant c v) = .ok u → resolve [] u = .ok (f, t) →
      Denotes find (.literal v d) f t
  | aggregate {name : String} {e : Expr} {es : List Expr} {d : DataType} {r : Reduction}
      {f : Formula} {s t c : ColumnType} :
    Reduction.ofName? name = some r → Denotes find e f s → d.column = .ok c →
    r.type s = .ok t →
      castable t c = true →
      Denotes find (.aggregate name (e :: es) d) ((Formula.reduce r s f).coerced t c) c
  | binary {l r : Expr} {op : String} {o : Operator} {f g : Formula} {s t : ColumnType}
      {m : Meeting} :
    Denotes find l f s → Denotes find r g t → Operator.ofText? op = some o →
    meet o s t = .ok m →
      Denotes find (.binary l op r)
        (.combine m.kernel (f.coerced s m.left) (g.coerced t m.right)) m.result
  | not {e : Expr} {f : Formula} {t : ColumnType} :
    Denotes find e f t → t.isNegatable = true → Denotes find (.not e) (.negate t f) t
  | isNull {e : Expr} {f : Formula} {t : ColumnType} :
    Denotes find e f t → Denotes find (.isNull e) (.isNull f) .bool
  | isNotNull {e : Expr} {f : Formula} {t : ColumnType} :
    Denotes find e f t → Denotes find (.isNotNull e) (.isNotNull f) .bool
  | cast {e : Expr} {d : DataType} {f : Formula} {s c : ColumnType} :
    Denotes find e f s → d.column = .ok c → castable s c = true →
      Denotes find (.cast e d) (f.coerced s c) c
  | «alias» {e : Expr} {name : String} {f : Formula} {t : ColumnType} :
    Denotes find e f t → Denotes find (.alias e name) f t

section resolving
variable {layout : Schema} {h : Header}

theorem resolve_of_isConstant {u : Term} (hu : u.isConstant = true) (h h' : Header) :
    resolve h u = resolve h' u := by
  induction u with
  | constant c t => rfl
  | cast e t ih => rw [resolve, resolve, ih hu]
  | _ => cases hu

theorem resolve_not {t : Term} {f : Formula} {s : ColumnType} (hf : resolve h t = .ok (f, s))
    {g : Formula} {c : ColumnType} :
    resolve h (.not t) = .ok (g, c) ↔ s.isNegatable = true ∧ (g, c) = (.negate s f, s) := by
  rw [resolve, hf, Outcome.ok_bind]
  cases s with
  | bool | integer | null =>
    constructor
    · intro hx
      exact ⟨rfl, (Except.ok.inj hx).symm⟩
    · rintro ⟨-, hx⟩
      rw [hx]
  | _ =>
    constructor
    · intro hx
      cases hx
    · rintro ⟨hs, -⟩
      cases hs

theorem resolve_cast {t : Term} {f : Formula} {s c : ColumnType} (hf : resolve h t = .ok (f, s))
    {x : Formula × ColumnType} :
    resolve h (.cast t c) = .ok x ↔ castable s c = true ∧ x = (f.coerced s c, c) := by
  rw [resolve, hf, Outcome.ok_bind]
  dsimp only
  by_cases hc : castable s c = true
  · rw [if_pos hc]
    constructor
    · intro hx
      exact ⟨hc, (Except.ok.inj hx).symm⟩
    · rintro ⟨-, hx⟩
      rw [hx]
  · rw [if_neg hc]
    constructor
    · intro hx
      cases hx
    · rintro ⟨hs, -⟩
      exact absurd hs hc

theorem denotes_of_resolve {e : Expr} {u : Term} {f : Formula} {t : ColumnType}
    (hu : term layout e = .ok u) (hf : resolve h u = .ok (f, t)) :
    Denotes (columnAt? layout h) e f t := by
  match e with
  | .column i =>
    rw [term] at hu
    split at hu
    · rename_i field hi
      cases hu
      obtain ⟨⟨k, s⟩, hk, hf⟩ := Outcome.bind_eq_ok.mp hf
      cases hf
      exact .column (by rw [columnAt?, hi, Option.bind_some, hk]; rfl)
    · cases hu
  | .literal v d =>
    have hc : u.isConstant = true := isConstant_of_literal hu
    rw [resolve_of_isConstant hc h []] at hf
    exact .literal hu hf
  | .wildcard => cases hu
  | .bare => cases hu
  | .aggregate name [] d =>
    simp only [term] at hu
    split at hu
    · cases hu
    · cases hu
  | .aggregate name (e :: es) d =>
    simp only [term] at hu
    split at hu
    · cases hu
    · rename_i r hr
      obtain ⟨v, hv, hu⟩ := Outcome.bind_eq_ok.mp hu
      obtain ⟨c, hc, hu⟩ := Outcome.bind_eq_ok.mp hu
      cases hu
      obtain ⟨⟨g, s⟩, hg, -⟩ := Outcome.bind_eq_ok.mp hf
      obtain ⟨hcast, hx⟩ := (resolve_cast hg).mp hf
      obtain ⟨⟨g', s'⟩, hg', hg⟩ := Outcome.bind_eq_ok.mp hg
      obtain ⟨t', ht', hg⟩ := Outcome.bind_eq_ok.mp hg
      cases hg
      cases hx
      exact .aggregate hr (denotes_of_resolve hv hg') hc ht' hcast
  | .binary l op r =>
    obtain ⟨a, ha, hu⟩ := Outcome.bind_eq_ok.mp hu
    obtain ⟨b, hb, hu⟩ := Outcome.bind_eq_ok.mp hu
    split at hu
    · rename_i o ho
      cases hu
      obtain ⟨⟨g, s⟩, hg, hf⟩ := Outcome.bind_eq_ok.mp hf
      obtain ⟨⟨g', s'⟩, hg', hf⟩ := Outcome.bind_eq_ok.mp hf
      obtain ⟨m, hm, hf⟩ := Outcome.bind_eq_ok.mp hf
      cases hf
      exact .binary (denotes_of_resolve ha hg) (denotes_of_resolve hb hg') ho hm
    · cases hu
  | .not e =>
    obtain ⟨v, hv, hu⟩ := Outcome.bind_eq_ok.mp hu
    cases hu
    obtain ⟨⟨g, s⟩, hg, -⟩ := Outcome.bind_eq_ok.mp hf
    obtain ⟨hs, hx⟩ := (resolve_not hg).mp hf
    cases hx
    exact .not (denotes_of_resolve hv hg) hs
  | .isNull e =>
    obtain ⟨v, hv, hu⟩ := Outcome.bind_eq_ok.mp hu
    cases hu
    obtain ⟨⟨g, s⟩, hg, hf⟩ := Outcome.bind_eq_ok.mp hf
    cases hf
    exact .isNull (denotes_of_resolve hv hg)
  | .isNotNull e =>
    obtain ⟨v, hv, hu⟩ := Outcome.bind_eq_ok.mp hu
    cases hu
    obtain ⟨⟨g, s⟩, hg, hf⟩ := Outcome.bind_eq_ok.mp hf
    cases hf
    exact .isNotNull (denotes_of_resolve hv hg)
  | .cast e d =>
    obtain ⟨v, hv, hu⟩ := Outcome.bind_eq_ok.mp hu
    obtain ⟨c, hc, hu⟩ := Outcome.bind_eq_ok.mp hu
    cases hu
    obtain ⟨⟨g, s⟩, hg, -⟩ := Outcome.bind_eq_ok.mp hf
    obtain ⟨hcast, hx⟩ := (resolve_cast hg).mp hf
    cases hx
    exact .cast (denotes_of_resolve hv hg) hc hcast
  | .alias e name =>
    obtain ⟨v, hv, hu⟩ := Outcome.bind_eq_ok.mp hu
    cases hu
    exact .alias (denotes_of_resolve hv hf)

theorem resolve_of_denotes {e : Expr} {f : Formula} {t : ColumnType}
    (hd : Denotes (columnAt? layout h) e f t) :
    ∃ u, term layout e = .ok u ∧ resolve h u = .ok (f, t) := by
  induction hd with
  | @column i k s hi =>
    obtain ⟨field, hfield, hk⟩ := Option.bind_eq_some_iff.mp hi
    refine ⟨.column field.name, by rw [term, hfield], ?_⟩
    rw [resolve, Outcome.toOption_eq_some.mp hk]
    rfl
  | @literal v d u f t hu hf =>
    have hterm : term layout (.literal v d) = .ok u := hu
    refine ⟨u, hterm, ?_⟩
    rw [resolve_of_isConstant (isConstant_of_literal hterm) h [], hf]
  | @aggregate name e es d r f s t c hr _ hc ht hcast ih =>
    obtain ⟨u, hu, hf⟩ := ih
    have hr' : resolve h (.reduce r u) = .ok (.reduce r s f, t) := by
      rw [resolve, hf, Outcome.ok_bind]
      dsimp only
      rw [ht]
      rfl
    refine ⟨.cast (.reduce r u) c, ?_, (resolve_cast hr').mpr ⟨hcast, rfl⟩⟩
    simp only [term, hr, hu, hc, Outcome.ok_bind]
  | @binary l r op o f g s t m _ _ ho hm ihl ihr =>
    obtain ⟨a, ha, hfa⟩ := ihl
    obtain ⟨b, hb, hfb⟩ := ihr
    refine ⟨.binary o a b, ?_, ?_⟩
    · rw [term, ha, hb, Outcome.ok_bind, Outcome.ok_bind, ho]
    · rw [resolve, hfa, hfb, Outcome.ok_bind]
      dsimp only
      rw [Outcome.ok_bind, hm]
      rfl
  | not _ hs ih =>
    obtain ⟨u, hu, hf⟩ := ih
    exact ⟨.not u, by rw [term, hu]; rfl, (resolve_not hf).mpr ⟨hs, rfl⟩⟩
  | isNull _ ih =>
    obtain ⟨u, hu, hf⟩ := ih
    exact ⟨.isNull u, by rw [term, hu]; rfl, by rw [resolve, hf]; rfl⟩
  | isNotNull _ ih =>
    obtain ⟨u, hu, hf⟩ := ih
    exact ⟨.isNotNull u, by rw [term, hu]; rfl, by rw [resolve, hf]; rfl⟩
  | cast _ hc hcast ih =>
    obtain ⟨u, hu, hf⟩ := ih
    refine ⟨.cast u _, ?_, (resolve_cast hf).mpr ⟨hcast, rfl⟩⟩
    rw [term, hu, hc]
    rfl
  | «alias» _ ih =>
    obtain ⟨u, hu, hf⟩ := ih
    exact ⟨.named u _, by rw [term, hu]; rfl, hf⟩

end resolving

/-- Formula and type of an expression over a table laid out and headed like this. -/
def formula? (layout : Schema) (h : Header) (e : Expr) : Option (Formula × ColumnType) :=
  (term layout e >>= resolve h).toOption

theorem formula?_eq_some {layout : Schema} {h : Header} {e : Expr} {x : Formula × ColumnType} :
    formula? layout h e = some x ↔ Denotes (columnAt? layout h) e x.1 x.2 := by
  rw [formula?, Outcome.toOption_eq_some, Outcome.bind_eq_ok]
  constructor
  · rintro ⟨u, hu, hx⟩
    exact denotes_of_resolve hu hx
  · exact resolve_of_denotes

namespace Denotes
variable {find find' : Int → Option (Nat × ColumnType)} {e : Expr} {f : Formula} {t : ColumnType}

theorem isSome_find (hd : Denotes find e f t) : ∀ i ∈ e.reached, (find i).isSome = true := by
  induction hd with
  | column hi => simp [Expr.reached, hi]
  | literal => simp [Expr.reached]
  | binary _ _ _ _ ihl ihr =>
    intro i hi
    rcases List.mem_append.mp hi with hi | hi
    · exact ihl i hi
    · exact ihr i hi
  | aggregate _ _ _ _ _ ih => exact ih
  | not _ _ ih => exact ih
  | isNull _ ih => exact ih
  | isNotNull _ ih => exact ih
  | cast _ _ _ ih => exact ih
  | «alias» _ ih => exact ih

theorem congr (hd : Denotes find e f t) (hf : ∀ i ∈ e.reached, find i = find' i) :
    Denotes find' e f t := by
  induction hd with
  | column hi => exact .column (by rw [← hf _ (List.mem_singleton.mpr rfl), hi])
  | literal hu hr => exact .literal hu hr
  | binary _ _ ho hm ihl ihr =>
    refine .binary (ihl fun i hi => hf i ?_) (ihr fun i hi => hf i ?_) ho hm
    · exact List.mem_append.mpr (.inl hi)
    · exact List.mem_append.mpr (.inr hi)
  | aggregate hr _ hc ht hcast ih => exact .aggregate hr (ih hf) hc ht hcast
  | not _ hs ih => exact .not (ih hf) hs
  | isNull _ ih => exact .isNull (ih hf)
  | isNotNull _ ih => exact .isNotNull (ih hf)
  | cast _ hc hcast ih => exact .cast (ih hf) hc hcast
  | «alias» _ ih => exact .alias (ih hf)

end Denotes

theorem isScalar_coerced (f : Formula) (s t : ColumnType) :
    (f.coerced s t).isScalar = f.isScalar := by
  unfold Formula.coerced
  split <;> rfl

theorem isRowwise_coerced (f : Formula) (s t : ColumnType) :
    (f.coerced s t).isRowwise = f.isRowwise := by
  unfold Formula.coerced
  split <;> rfl

theorem formula_of_literal {v : Datum} {d : DataType} {u : Term}
    (hu : (d.column >>= fun c => constant c v) = .ok u) {h : Header} {f : Formula} {t : ColumnType}
    (hf : resolve h u = .ok (f, t)) : f.isScalar = true ∧ f.isRowwise = true := by
  have hterm : term [] (.literal v d) = .ok u := hu
  have hu : u.isConstant = true := isConstant_of_literal hterm
  obtain ⟨c, hc⟩ := value_of_resolve hu hf
  obtain ⟨g, hg, hl, -⟩ := resolve_of_value hc h
  cases hf.symm.trans hg
  exact ⟨Formula.isScalar_of_isLiteral hl, Formula.isRowwise_of_isLiteral hl⟩

namespace Denotes
variable {find : Int → Option (Nat × ColumnType)} {e : Expr} {f : Formula} {t : ColumnType}

theorem isRowwise (hd : Denotes find e f t) (hp : e.isPlain = true) : f.isRowwise = true := by
  induction hd with
  | column => rfl
  | literal hu hf => exact (formula_of_literal hu hf).2
  | aggregate => cases hp
  | binary _ _ _ _ ihl ihr =>
    have hlr := (Bool.and_eq_true _ _).mp hp
    simp [Formula.isRowwise, isRowwise_coerced, ihl hlr.1, ihr hlr.2]
  | cast _ _ _ ih => exact (isRowwise_coerced ..).trans (ih hp)
  | not _ _ ih => exact ih hp
  | isNull _ ih => exact ih hp
  | isNotNull _ ih => exact ih hp
  | «alias» _ ih => exact ih hp

theorem isScalar_eq (hd : Denotes find e f t) (hp : e.isPlain = true) :
    f.isScalar = e.columns.isEmpty := by
  induction hd with
  | column => rfl
  | literal hu hf => exact (formula_of_literal hu hf).1
  | aggregate => cases hp
  | binary _ _ _ _ ihl ihr =>
    have hlr := (Bool.and_eq_true _ _).mp hp
    rw [Formula.isScalar, isScalar_coerced, isScalar_coerced, ihl hlr.1, ihr hlr.2, Expr.columns,
      Bool.eq_iff_iff]
    simp
  | cast _ _ _ ih => exact (isScalar_coerced ..).trans (ih hp)
  | not _ _ ih => exact ih hp
  | isNull _ ih => exact ih hp
  | isNotNull _ ih => exact ih hp
  | «alias» _ ih => exact ih hp

end Denotes
end Engine
end LazyQuery
