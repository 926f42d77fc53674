import LazyQuery.Engine.Relation
import LazyQuery.Proofs.Outcome

/-! Replacing terms. Where one term stands for another in every table, relations that differ only in
such terms have the same header and the same rows. -/
namespace LazyQuery.Engine

def Formula.isLiteral : Formula → Bool
  | .constant _ => true
  | .cast _ _ f => f.isLiteral
  | _ => false

/-- Formulas that differ only in how the same values are come by. -/
inductive Formula.Same : Formula → Formula → Prop
  | literal {f g : Formula} : f.isLiteral = true → g.isLiteral = true →
    (∀ groups columns, f.eval groups columns = g.eval groups columns) → Same f g
  | column (i : Nat) : Same (.column i) (.column i)
  | cast (s t : ColumnType) {f g : Formula} : Same f g → Same (.cast s t f) (.cast s t g)
  | combine (k : Kernel) {f g f' g' : Formula} :
    Same f g → Same f' g' → Same (.combine k f f') (.combine k g g')
  | negate (t : ColumnType) {f g : Formula} : Same f g → Same (.negate t f) (.negate t g)
  | isNull {f g : Formula} : Same f g → Same (.isNull f) (.isNull g)
  | isNotNull {f g : Formula} : Same f g → Same (.isNotNull f) (.isNotNull g)
  | reduce (r : Reduction) (t : ColumnType) {f g : Formula} :
    Same f g → Same (.reduce r t f) (.reduce r t g)

def SameTyped (a b : Formula × ColumnType) : Prop := a.1.Same b.1 ∧ a.2 = b.2

/-- Wherever the second term has a formula, the first has one of the same type and value. -/
def Term.StandsFor (u t : Term) : Prop :=
  ∀ h, Outcome.Follows SameTyped (resolve h t) (resolve h u)

theorem rel_bind {α β γ δ : Type} {R : α → β → Prop} {S : γ → δ → Prop}
    {x : Option α} {y : Option β}
    {f : α → Option γ} {g : β → Option δ} (h : Option.Rel R x y)
    (hfg : ∀ a b, R a b → Option.Rel S (f a) (g b)) : Option.Rel S (x >>= f) (y >>= g) := by
  cases h with
  | none => exact .none
  | some hab => exact hfg _ _ hab

namespace Formula
variable {f g : Formula}

theorem isScalar_of_isLiteral (h : f.isLiteral = true) : f.isScalar = true := by
  induction f with
  | constant => rfl
  | cast s t f ih => exact ih h
  | _ => cases h

theorem isRowwise_of_isLiteral (h : f.isLiteral = true) : f.isRowwise = true := by
  induction f with
  | constant => rfl
  | cast s t f ih => exact ih h
  | _ => cases h

theorem conjuncts_of_isLiteral (h : f.isLiteral = true) : f.conjuncts = [f] := by
  cases f with
  | constant | cast => rfl
  | _ => cases h

theorem before?_of_isLiteral (h : f.isLiteral = true) (fs : List Formula) :
    f.before? fs = some f := by
  induction f with
  | constant => rfl
  | cast s t f ih =>
    rw [before?, ih h]
    rfl
  | _ => cases h

theorem conjuncts_combine {k : Kernel} (hk : k ≠ .connect .and) (l r : Formula) :
    (Formula.combine k l r).conjuncts = [.combine k l r] := by
  rw [conjuncts]
  intro _ _ h
  exact hk (Formula.combine.inj h).1

namespace Same

theorem refl (f : Formula) : f.Same f := by
  induction f with
  | column i => exact .column i
  | constant c => exact .literal rfl rfl fun _ _ => rfl
  | cast s t f ih => exact .cast s t ih
  | combine k l r ihl ihr => exact .combine k ihl ihr
  | negate t f ih => exact .negate t ih
  | isNull f ih => exact .isNull ih
  | isNotNull f ih => exact .isNotNull ih
  | reduce r t f ih => exact .reduce r t ih

theorem coerced (h : f.Same g) (s t : ColumnType) : (f.coerced s t).Same (g.coerced s t) := by
  unfold Formula.coerced
  split
  · exact h
  · exact h.cast s t

theorem scalar (h : f.Same g) : f.isScalar = g.isScalar := by
  induction h with
  | literal hf hg => rw [isScalar_of_isLiteral hf, isScalar_of_isLiteral hg]
  | combine k _ _ ih ih' => rw [isScalar, isScalar, ih, ih']
  | column | reduce => rfl
  | cast _ _ _ ih | negate _ _ ih | isNull _ ih | isNotNull _ ih => exact ih

theorem rowwise (h : f.Same g) : f.isRowwise = g.isRowwise := by
  induction h with
  | literal hf hg => rw [isRowwise_of_isLiteral hf, isRowwise_of_isLiteral hg]
  | combine k _ _ ih ih' => rw [isRowwise, isRowwise, ih, ih']
  | column | reduce => rfl
  | cast _ _ _ ih | negate _ _ ih | isNull _ ih | isNotNull _ ih => exact ih

theorem eval (h : f.Same g) (groups : Option Partition) (columns : List (List Deferred)) :
    f.eval groups columns = g.eval groups columns := by
  induction h with
  | literal _ _ he => exact he groups columns
  | column => rfl
  | combine k _ _ ih ih' => rw [Formula.eval, Formula.eval, ih, ih']
  | cast _ _ _ ih | negate _ _ ih | isNull _ ih | isNotNull _ ih | reduce _ _ _ ih =>
    rw [Formula.eval, Formula.eval, ih]

theorem before?_column {fs gs : List Formula} (hs : List.Forall₂ Same fs gs) (i : Nat) :
    Option.Rel Same ((Formula.column i).before? fs) ((Formula.column i).before? gs) := by
  induction hs generalizing i with
  | nil => exact .none
  | cons h _ ih =>
    cases i with
    | succ i => exact ih i
    | zero =>
      cases h with
      | literal hf hg =>
        have hn : ∀ {f : Formula}, f.isLiteral = true → ∀ fs,
            (Formula.column 0).before? (f :: fs) = none := by
          intro f hf fs
          cases f with
          | constant | cast => rfl
          | _ => cases hf
        rw [hn hf, hn hg]
        exact .none
      | column k => exact .some (.column k)
      | _ => exact .none

theorem conjuncts (h : f.Same g) : List.Forall₂ Same f.conjuncts g.conjuncts := by
  induction h with
  | literal hf hg he =>
    rw [conjuncts_of_isLiteral hf, conjuncts_of_isLiteral hg]
    exact .cons (.literal hf hg he) .nil
  | @combine k f g f' g' hl hr ihl ihr =>
    by_cases hk : k = .connect .and
    · subst hk
      exact List.rel_append ihl ihr
    · rw [conjuncts_combine hk, conjuncts_combine hk]
      exact .cons (.combine k hl hr) .nil
  | column i => exact .cons (.column i) .nil
  | cast s t h _ => exact .cons (.cast s t h) .nil
  | negate t h _ => exact .cons (.negate t h) .nil
  | isNull h _ => exact .cons (.isNull h) .nil
  | isNotNull h _ => exact .cons (.isNotNull h) .nil
  | reduce r t h _ => exact .cons (.reduce r t h) .nil

theorem before? {fs gs : List Formula} (hs : List.Forall₂ Same fs gs) (h : f.Same g) :
    Option.Rel Same (f.before? fs) (g.before? gs) := by
  induction h with
  | literal hf hg he =>
    rw [before?_of_isLiteral hf, before?_of_isLiteral hg]
    exact .some (.literal hf hg he)
  | column i => exact before?_column hs i
  | combine k _ _ ihl ihr =>
    exact rel_bind ihl fun _ _ hl => rel_bind ihr fun _ _ hr => .some (hl.combine k hr)
  | cast s t _ ih => exact rel_bind ih fun _ _ h => .some (h.cast s t)
  | negate t _ ih => exact rel_bind ih fun _ _ h => .some (h.negate t)
  | isNull _ ih => exact rel_bind ih fun _ _ h => .some h.isNull
  | isNotNull _ ih => exact rel_bind ih fun _ _ h => .some h.isNotNull
  | reduce r t _ ih => exact rel_bind ih fun _ _ h => .some (h.reduce r t)

end Same

end Formula

namespace Term
variable {t u : Term}

theorem StandsFor.refl (t : Term) : t.StandsFor t := fun _ a ha => ⟨a, ha, .refl a.1, rfl⟩

theorem StandsFor.cast (h : u.StandsFor t) (target : ColumnType) :
    (Term.cast u target).StandsFor (.cast t target) := by
  intro header
  refine (h header).bind ?_
  rintro ⟨f, s⟩ ⟨g, _⟩ ⟨hs, rfl⟩
  dsimp only
  split
  · exact .ok ⟨hs.coerced s target, rfl⟩
  · exact .error

theorem StandsFor.reduce (h : u.StandsFor t) (r : Reduction) :
    (Term.reduce r u).StandsFor (.reduce r t) := by
  intro header
  refine (h header).bind ?_
  rintro ⟨f, s⟩ ⟨g, _⟩ ⟨hs, rfl⟩
  refine (Outcome.Follows.refl (r.type s)).bind ?_
  rintro rt _ rfl
  exact .ok ⟨hs.reduce r s, rfl⟩

theorem StandsFor.binary {t' u' : Term} (h : u.StandsFor t) (h' : u'.StandsFor t') (op : Operator) :
    (Term.binary op u u').StandsFor (.binary op t t') := by
  intro header
  refine (h header).bind ?_
  rintro ⟨l, a⟩ ⟨l', _⟩ ⟨hl, rfl⟩
  refine (h' header).bind ?_
  rintro ⟨r, b⟩ ⟨r', _⟩ ⟨hr, rfl⟩
  refine (Outcome.Follows.refl (meet op a b)).bind ?_
  rintro m _ rfl
  exact .ok ⟨(hl.coerced a m.left).combine m.kernel (hr.coerced b m.right), rfl⟩

theorem StandsFor.not (h : u.StandsFor t) : (Term.not u).StandsFor (.not t) := by
  intro header
  refine (h header).bind ?_
  rintro ⟨f, s⟩ ⟨g, _⟩ ⟨hs, rfl⟩
  dsimp only
  split
  · exact .ok ⟨hs.negate _, rfl⟩
  · exact .ok ⟨hs.negate _, rfl⟩
  · exact .ok ⟨hs.negate _, rfl⟩
  · exact .error

theorem StandsFor.isNull (h : u.StandsFor t) : (Term.isNull u).StandsFor (.isNull t) :=
  fun header => (h header).bind fun _ _ hs => .ok ⟨hs.1.isNull, rfl⟩

theorem StandsFor.isNotNull (h : u.StandsFor t) : (Term.isNotNull u).StandsFor (.isNotNull t) :=
  fun header => (h header).bind fun _ _ hs => .ok ⟨hs.1.isNotNull, rfl⟩

theorem StandsFor.named (h : u.StandsFor t) (name : String) :
    (Term.named u name).StandsFor (.named t name) := h

end Term

/-- Terms of the same names, where each of the second stands for the one at its place. -/
def Stand (ts us : List (String × Term)) : Prop :=
  List.Forall₂ (fun t u => t.1 = u.1 ∧ u.2.StandsFor t.2) ts us

def Agree (found found' : List (String × Formula × ColumnType)) : Prop :=
  List.Forall₂ (fun a b => a.1 = b.1 ∧ SameTyped a.2 b.2) found found'

theorem Stand.refl (ts : List (String × Term)) : Stand ts ts :=
  List.forall₂_same.mpr fun t _ => ⟨rfl, .refl t.2⟩

theorem resolveAll_cons (h : Header) (name : String) (t : Term) (ts : List (String × Term)) :
    resolveAll h ((name, t) :: ts) =
      (resolve h t >>= fun e => resolveAll h ts >>= fun es => .ok ((name, e) :: es)) := by
  rw [resolveAll, List.mapM_cons]
  simp only [bind_assoc, Outcome.ok_bind]
  rfl

theorem resolveAll_stand {ts us : List (String × Term)} (hs : Stand ts us) (h : Header) :
    Outcome.Follows Agree (resolveAll h ts) (resolveAll h us) := by
  refine Outcome.Follows.mapM ?_ hs
  rintro ⟨name, t⟩ ⟨_, u⟩ ⟨rfl, hu⟩
  exact (hu h).bind fun a b hab => .ok ⟨rfl, hab⟩

namespace Agree
variable {found found' : List (String × Formula × ColumnType)}

theorem header_eq (h : Agree found found') :
    found.map (fun (name, _, t) => (name, t)) = found'.map fun (name, _, t) => (name, t) := by
  refine Outcome.map_eq_of_forall₂ ?_ h
  rintro ⟨_, f, s⟩ ⟨_, g, t⟩ ⟨rfl, -, rfl⟩
  rfl

theorem groupedHeader_eq (h : Agree found found') :
    found.map (fun (name, f, t) => (name, groupedType f t)) =
      found'.map fun (name, f, t) => (name, groupedType f t) := by
  refine Outcome.map_eq_of_forall₂ ?_ h
  rintro ⟨_, f, s⟩ ⟨_, g, t⟩ ⟨rfl, hs, rfl⟩
  have hg : groupedType f s = groupedType g s := by rw [groupedType, groupedType, hs.scalar]
  exact congrArg (Prod.mk _) hg

theorem eval_eq (h : Agree found found') (groups : Option Partition)
    (columns : List (List Deferred)) :
    found.mapM (fun (_, f, _) => f.eval groups columns) =
      found'.mapM fun (_, f, _) => f.eval groups columns := by
  have he : found.map (fun (_, f, _) => f.eval groups columns) =
      found'.map fun (_, f, _) => f.eval groups columns :=
    Outcome.map_eq_of_forall₂ (fun a b hab => hab.2.1.eval groups columns) h
  have hid : ∀ fs : List (String × Formula × ColumnType),
      fs.mapM (fun (_, f, _) => f.eval groups columns) =
        (fs.map fun (_, f, _) => f.eval groups columns).mapM id := by
    intro fs
    rw [List.mapM_map]
    rfl
  rw [hid, hid, he]

theorem evalAll_eq (h : Agree found found') (columns : List (List Deferred)) :
    (found.map (·.2.1)).mapM (Formula.eval none columns) =
      (found'.map (·.2.1)).mapM (Formula.eval none columns) := by
  rw [List.mapM_map, List.mapM_map]
  exact h.eval_eq none columns

theorem formulas (h : Agree found found') :
    List.Forall₂ Formula.Same (found.map (·.2.1)) (found'.map (·.2.1)) :=
  List.rel_map (fun _ _ hab => hab.2.1) h

theorem length_eq (h : Agree found found') : found.length = found'.length :=
    List.Forall₂.length_eq h

end Agree

section same
variable {fs gs ps qs : List Formula} {f g : Formula}

theorem isRowByRow_same (h : List.Forall₂ Formula.Same fs gs) :
    Relation.isRowByRow fs = Relation.isRowByRow gs := by
  have hr : fs.map Formula.isRowwise = gs.map Formula.isRowwise :=
    Outcome.map_eq_of_forall₂ (fun _ _ hs => hs.rowwise) h
  have hs : fs.map Formula.isScalar = gs.map Formula.isScalar :=
    Outcome.map_eq_of_forall₂ (fun _ _ hs => hs.scalar) h
  have hall := congrArg (List.all · id) hr
  have hany := congrArg (List.any · (!·)) hs
  simp only [List.all_map, List.any_map, Function.comp_def, id_eq] at hall hany
  simp only [Relation.isRowByRow, hall, hany]

theorem handed_same (h : List.Forall₂ Formula.Same fs gs)
    (hp : List.Forall₂ Formula.Same ps qs) :
    List.Forall₂ Formula.Same (Relation.handed fs ps).1 (Relation.handed gs qs).1 ∧
      List.Forall₂ Formula.Same (Relation.handed fs ps).2 (Relation.handed gs qs).2 := by
  unfold Relation.handed
  rw [isRowByRow_same h]
  split
  · induction hp with
    | nil => exact ⟨.nil, .nil⟩
    | @cons p q ps qs hpq _ ih =>
      have hb := hpq.before? h
      cases hp' : p.before? fs with
      | none =>
        cases hq' : q.before? gs with
        | none => simpa [hp', hq', hpq] using ih
        | some => simp [hp', hq'] at hb
      | some =>
        cases hq' : q.before? gs with
        | none => simp [hp', hq'] at hb
        | some =>
          rw [hp', hq', Option.rel_some_some] at hb
          simpa [hp', hq', hb] using ih
  · exact ⟨.nil, hp⟩

theorem joined_same (h : f.Same g) (hp : List.Forall₂ Formula.Same ps qs) :
    (f.joined ps).Same (g.joined qs) := by
  induction hp generalizing f g with
  | nil => exact h
  | cons hpq _ ih => exact ih (h.combine _ hpq)

theorem satisfying_same (hp : List.Forall₂ Formula.Same ps qs) (t : Table) :
    t.satisfying ps = t.satisfying qs := by
  cases hp with
  | nil => rfl
  | cons h hp => rw [Table.satisfying, Table.satisfying, (joined_same h hp).eval]

theorem pick_same (hp : List.Forall₂ Formula.Same ps qs) (bound : Option Nat) :
    Table.pick ps bound = Table.pick qs bound := by
  funext t
  rw [Table.pick, Table.pick, satisfying_same hp]

theorem isEmpty_same (hp : List.Forall₂ Formula.Same ps qs) : ps.isEmpty = qs.isEmpty := by
  cases hp <;> rfl

end same

namespace Relation

/-- Relations that differ only in terms, each of which stands for the other's. -/
inductive StandsFor : Relation → Relation → Prop
  | refl (r : Relation) : StandsFor r r
  | select {ts us : List (String × Term)} {q r : Relation} :
    Stand ts us → StandsFor q r → StandsFor (.select (.terms us) q) (.select (.terms ts) r)
  | filter {u t : Term} {q r : Relation} :
    u.StandsFor t → StandsFor q r → StandsFor (.filter u q) (.filter t r)
  | take (n : Nat) {q r : Relation} : StandsFor q r → StandsFor (.take n q) (.take n r)
  | group {ts us ts' us' : List (String × Term)} {q r : Relation} :
    Stand ts us → Stand ts' us' → StandsFor q r →
    StandsFor (.group us us' q) (.group ts ts' r)

variable {files : Files} {q r : Relation}

theorem StandsFor.header (hs : q.StandsFor r) :
    Outcome.Follows Eq (r.header files) (q.header files) := by
  induction hs with
  | refl r => exact .refl _
  | select hts _ ih =>
    refine ih.bind ?_
    rintro h _ rfl
    refine (resolveAll_stand hts h).bind fun found found' ha => ?_
    rw [ha.header_eq]
    exact .refl _
  | filter hut _ ih =>
    refine ih.bind ?_
    rintro h _ rfl
    refine (hut h).bind ?_
    rintro ⟨f, ty⟩ ⟨g, _⟩ ⟨-, rfl⟩
    exact .refl _
  | take n _ ih => exact ih
  | group hks has _ ih =>
    refine ih.bind ?_
    rintro h _ rfl
    refine (resolveAll_stand hks h).bind fun ks ks' hk => ?_
    refine (resolveAll_stand has h).bind fun as as' ha => ?_
    rw [hk.header_eq, ha.groupedHeader_eq]
    exact .refl _

theorem run_same {ps qs : List Formula} (hp : List.Forall₂ Formula.Same ps qs) (r : Relation)
    (bound : Option Nat) : r.run files ps bound = r.run files qs bound := by
  induction r generalizing ps qs bound with
  | table | columnar => simp only [run, pick_same hp]
  | delimited => simp only [run, pick_same hp, isEmpty_same hp]
  | select choice r ih =>
    rw [run, run]
    refine bind_congr fun h => bind_congr fun found => ?_
    obtain ⟨hdown, hheld⟩ := handed_same (List.forall₂_same.mpr fun f _ => .refl f) hp
    dsimp only
    rw [ih hdown, pick_same hheld, passed, passed, isEmpty_same hheld]
  | filter p r ih =>
    rw [run, run]
    refine bind_congr fun h => bind_congr fun x => ?_
    have hall : List.Forall₂ Formula.Same x.1.conjuncts x.1.conjuncts :=
      List.forall₂_same.mpr fun f _ => .refl f
    dsimp only
    rw [ih (List.rel_append hall hp), pick_same hp]
  | take n r ih => rw [run, run, isEmpty_same hp, pick_same hp]
  | group => simp only [run, pick_same hp]

theorem StandsFor.run (hs : q.StandsFor r) {ps qs : List Formula}
    (hp : List.Forall₂ Formula.Same ps qs) (bound : Option Nat) :
    Outcome.Follows Eq (r.run files ps bound) (q.run files qs bound) := by
  induction hs generalizing ps qs bound with
  | refl r =>
    rw [run_same hp]
    exact .refl _
  | select hts hs ih =>
    refine hs.header.bind ?_
    rintro h _ rfl
    refine (resolveAll_stand hts h).bind fun found found' ha => ?_
    dsimp only
    -- what is handed down depends on the formulas, and they agree on it
    obtain ⟨hdown, hheld⟩ := handed_same ha.formulas hp
    rw [passed, passed, isRowByRow_same ha.formulas, isEmpty_same hheld]
    refine (ih hdown _).bind ?_
    rintro t _ rfl
    rw [ha.evalAll_eq, pick_same hheld]
    exact .refl _
  | filter hut hs ih =>
    refine hs.header.bind ?_
    rintro h _ rfl
    refine (hut h).bind ?_
    rintro ⟨f, ty⟩ ⟨g, _⟩ ⟨hsame, -⟩
    dsimp only
    rw [hsame.rowwise]
    split
    · exact ih (List.rel_append hsame.conjuncts hp) bound
    · refine (ih .nil none).bind ?_
      rintro t _ rfl
      rw [satisfying_same (.cons hsame .nil), pick_same hp]
      exact .refl _
  | take n _ ih =>
    rw [Relation.run, Relation.run, isEmpty_same hp]
    split
    · exact ih .nil _
    · refine (ih .nil _).bind ?_
      rintro t _ rfl
      rw [pick_same hp]
      exact .refl _
  | group hks has hs ih =>
    refine hs.header.bind ?_
    rintro h _ rfl
    refine (resolveAll_stand hks h).bind fun ks ks' hk => ?_
    refine (resolveAll_stand has h).bind fun as as' ha => ?_
    refine (ih .nil none).bind ?_
    rintro t _ rfl
    simp only [hk.eval_eq, ha.eval_eq, hk.length_eq, pick_same hp]
    exact .refl _

theorem StandsFor.collect (hs : q.StandsFor r) :
    Outcome.Follows Eq (r.collect files) (q.collect files) := by
  refine hs.header.bind ?_
  rintro h _ rfl
  refine (hs.run .nil none).bind ?_
  rintro t _ rfl
  exact .refl _

end Relation
end LazyQuery.Engine
