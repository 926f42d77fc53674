import LazyQuery.Expr.Field
import LazyQuery.Proofs.Outcome

/-! When a list of expressions has fields, and what is reported when it has none. References come
first, then wildcards, then the first node, components before what they are components of, that has
no field whatever its components have. All three are searched for at the same nodes. -/
namespace LazyQuery

namespace Outcome
variable {α β : Type}

/-- What a computation fails with, if it fails. -/
def fault? : Outcome α → Option Fault
  | .ok _ => none
  | .error e => some e

theorem fault?_eq_some {x : Outcome α} {e : Fault} : x.fault? = some e ↔ x = .error e := by
  cases x <;> simp [fault?]

/-- A sequence fails with the fault of its first part, else with that of the rest. -/
theorem fault?_bind {x : Outcome α} {f : α → Outcome β} {d : Option Fault}
    (h : ∀ a, x = .ok a → (f a).fault? = d) : (x >>= f).fault? = x.fault?.or d := by
  cases x with
  | error e => rfl
  | ok a => exact h a rfl

theorem fault?_bind_ok (x : Outcome α) (f : α → β) :
    (x >>= fun a => .ok (f a)).fault? = x.fault? := by
  cases x <;> rfl

theorem exists_of_forall₂_getElem? {R : α → β → Prop} {as : List α} {bs : List β}
    (h : List.Forall₂ R as bs)
    {k : Nat} {a : α} (ha : as[k]? = some a) : ∃ b, bs[k]? = some b ∧ R a b := by
  obtain ⟨hlt, rfl⟩ := List.getElem?_eq_some_iff.mp ha
  have hlt' : k < bs.length := h.length_eq ▸ hlt
  exact ⟨bs[k], List.getElem?_eq_getElem hlt', (List.forall₂_iff_get.mp h).2 k hlt hlt'⟩

end Outcome

namespace Expr

mutual
/-- All nodes of the expression, from left to right, each after its components. -/
def postorder : Expr → List Expr
  | .binary l op r => l.postorder ++ r.postorder ++ [.binary l op r]
  | .aggregate name args returns => postorderAll args ++ [.aggregate name args returns]
  | .not e => e.postorder ++ [.not e]
  | .isNull e => e.postorder ++ [.isNull e]
  | .isNotNull e => e.postorder ++ [.isNotNull e]
  | .cast e t => e.postorder ++ [.cast e t]
  | .alias e name => e.postorder ++ [.alias e name]
  | .column i => [.column i]
  | .literal v t => [.literal v t]
  | .wildcard => [.wildcard]
  | .bare => [.bare]

def postorderAll : List Expr → List Expr
  | [] => []
  | e :: es => e.postorder ++ postorderAll es
end

/-- The position of a reference. -/
def column? : Expr → Option Int
  | .column i => some i
  | _ => none

/-- What a node fails with although its components have fields. -/
def defect? : Expr → Option Fault
  | .binary _ op _ => if (Operator.ofText? op).isNone then some (.unknownOperator op) else none
  | .bare => some (.unknownExpression "Expr")
  | _ => none

theorem mem_filterMap_column? {i : Int} {es : List Expr} :
    i ∈ es.filterMap column? ↔ .column i ∈ es := by
  rw [List.mem_filterMap]
  constructor
  · rintro ⟨e, he, hi⟩
    cases e with
    | column j =>
      cases hi
      exact he
    | _ => cases hi
  · exact fun h => ⟨_, h, rfl⟩

mutual
theorem columns_eq_filterMap (e : Expr) : e.columns = e.postorder.filterMap column? := by
  cases e with
  | binary l op r =>
    rw [columns, columns_eq_filterMap l, columns_eq_filterMap r, postorder, List.filterMap_append,
      List.filterMap_append]
    exact (List.append_nil _).symm
  | aggregate name args t =>
    rw [columns, columnsOfAll_eq_filterMap args, postorder, List.filterMap_append]
    exact (List.append_nil _).symm
  | not e | isNull e | isNotNull e | cast e _ | «alias» e _ =>
    rw [columns, columns_eq_filterMap e, postorder, List.filterMap_append]
    exact (List.append_nil _).symm
  | column i => rfl
  | literal | wildcard | bare => rfl

theorem columnsOfAll_eq_filterMap (es : List Expr) :
    columnsOfAll es = (postorderAll es).filterMap column? := by
  cases es with
  | nil => rfl
  | cons e es =>
    rw [columnsOfAll, columns_eq_filterMap e, columnsOfAll_eq_filterMap es, postorderAll,
      List.filterMap_append]
end

mutual
theorem hasWildcard_iff (e : Expr) : e.hasWildcard = true ↔ .wildcard ∈ e.postorder := by
  cases e with
  | binary l op r => simp [hasWildcard, postorder, hasWildcard_iff l, hasWildcard_iff r]
  | aggregate name args t => simp [hasWildcard, postorder, anyWildcard_iff args]
  | not e | isNull e | isNotNull e | cast e _ | «alias» e _ =>
    simp [hasWildcard, postorder, hasWildcard_iff e]
  | column | literal | wildcard | bare => simp [hasWildcard, postorder]

theorem anyWildcard_iff (es : List Expr) :
    anyWildcard es = true ↔ .wildcard ∈ postorderAll es := by
  cases es with
  | nil => simp [anyWildcard, postorderAll]
  | cons e es => simp [anyWildcard, postorderAll, hasWildcard_iff e, anyWildcard_iff es]
end

/-- An operator that is not known, or a node of no kind. -/
def IsDefective (e : Expr) : Prop :=
  (∃ l op r, e = .binary l op r ∧ op ∉ Operator.all.map Operator.text) ∨ e = .bare

theorem isSome_defect? {e : Expr} : e.defect?.isSome = true ↔ e.IsDefective := by
  have hop : ∀ op, Operator.ofText? op = none ↔ op ∉ Operator.all.map Operator.text := by
    intro op
    simp [Operator.ofText?]
  cases e with
  | binary l op r =>
    have hiff : (Expr.binary l op r).IsDefective ↔ op ∉ Operator.all.map Operator.text := by
      constructor
      · rintro (⟨_, _, _, he, h⟩ | he)
        · cases he
          exact h
        · cases he
      · exact fun h => .inl ⟨l, op, r, rfl, h⟩
    rw [hiff, ← hop, defect?]
    cases Operator.ofText? op <;> simp
  | _ => simp [defect?, IsDefective]

theorem exists_defect {nodes : List Expr} :
    (∃ fault, nodes.findSome? defect? = some fault) ↔ ∃ e ∈ nodes, e.IsDefective := by
  rw [← Option.isSome_iff_exists, List.findSome?_isSome_iff]
  simp only [isSome_defect?]

theorem kind_of_defect {nodes : List Expr} {fault : Fault}
    (h : nodes.findSome? defect? = some fault) :
    (∃ op, fault = .unknownOperator op) ∨ fault = .unknownExpression "Expr" := by
  obtain ⟨e, -, he⟩ := List.exists_of_findSome?_eq_some h
  cases e with
  | binary l op r =>
    rw [defect?] at he
    split at he
    · exact .inl ⟨op, (Option.some.inj he).symm⟩
    · cases he
  | bare => exact .inr (Option.some.inj he).symm
  | _ => cases he

/-- A position that is referred to and does not exist. -/
def Stray (n : Nat) (nodes : List Expr) (i : Int) : Prop := .column i ∈ nodes ∧
    ¬(0 ≤ i ∧ i < n)

/-- No node is a wildcard, and every reference among them is to one of `n` fields. -/
def Bound (n : Nat) (nodes : List Expr) : Prop :=
  ∀ e ∈ nodes, e ≠ .wildcard ∧ ∀ i, e = .column i → 0 ≤ i ∧ i < n

theorem bound_append {n : Nat} {xs ys : List Expr} :
    Bound n (xs ++ ys) ↔ Bound n xs ∧ Bound n ys :=
  List.forall_mem_append

theorem bound_of_no_stray {n : Nat} {nodes : List Expr} (hi : ∀ i, ¬Stray n nodes i)
    (hw : .wildcard ∉ nodes) : Bound n nodes := by
  intro e he
  refine ⟨fun h => hw (h ▸ he), ?_⟩
  rintro i rfl
  exact not_not.mp fun h => hi i ⟨he, h⟩

theorem bound_node {n : Nat} {e : Expr} (hc : e.column? = none)
    (hw : e.isWildcard = false) : Bound n [e] := by
  intro d hd
  obtain rfl := List.mem_singleton.mp hd
  constructor
  · rintro rfl
    cases hw
  · rintro i rfl
    cases hc

theorem bound_postorder_iff {n : Nat} {e : Expr} :
    Bound n e.postorder ↔ e.hasWildcard = false ∧
    ∀ i ∈ e.columns, Schema.inRange n i = true := by
  rw [← Bool.not_eq_true, hasWildcard_iff, columns_eq_filterMap]
  simp only [mem_filterMap_column?, Schema.inRange, Bool.and_eq_true, decide_eq_true_eq]
  constructor
  · exact fun h => ⟨fun hw => (h _ hw).1 rfl, fun i hi => (h _ hi).2 i rfl⟩
  · intro h
    exact bound_of_no_stray (fun i hs => hs.2 (h.2 i hs.1)) h.1

theorem bound_postorderAll_iff {n : Nat} {es : List Expr} :
    Bound n (postorderAll es) ↔ ∀ e ∈ es, Bound n e.postorder := by
  induction es with
  | nil => exact ⟨nofun, nofun⟩
  | cons e es ih => rw [postorderAll, bound_append, ih, List.forall_mem_cons]

section references
variable {n : Nat} {es : List Expr}

theorem mem_outOfRange {i : Int} : i ∈ outOfRange n es ↔ Stray n (postorderAll es) i := by
  rw [Stray, outOfRange, List.mem_eraseDups, List.mem_filter, ← columnsOfAll_eq_flatMap,
    columnsOfAll_eq_filterMap, mem_filterMap_column?]
  refine and_congr_right fun _ => ?_
  rw [Schema.inRange, Bool.not_eq_true', ← Bool.not_eq_true, Bool.and_eq_true, decide_eq_true_eq,
    decide_eq_true_eq]

theorem outOfRange_eq_nil : outOfRange n es = [] ↔ ∀ i, ¬Stray n (postorderAll es) i := by
  simp only [List.eq_nil_iff_forall_not_mem, mem_outOfRange]

theorem checkReferences_of_stray (h : outOfRange n es ≠ []) :
    checkReferences n es = .error (.schema
      { invalidIndices := outOfRange n es, fieldCount := some n }) := by
  have hne : (!(outOfRange n es).isEmpty) = true := by simpa using h
  rw [checkReferences, if_pos hne]

theorem checkReferences_of_inRange (h : outOfRange n es = []) :
    checkReferences n es =
      if es.any hasWildcard then .error (.schema { misplacedWildcard := true }) else .ok () := by
  rw [checkReferences, h]
  rfl

theorem any_hasWildcard_iff : es.any hasWildcard = true ↔ .wildcard ∈ postorderAll es := by
  rw [← anyWildcard_eq_any, anyWildcard_iff]

theorem checkReferences_eq_ok_iff_bound :
    checkReferences n es = .ok () ↔ Bound n (postorderAll es) := by
  constructor
  · intro h
    by_cases hi : outOfRange n es = []
    · rw [checkReferences_of_inRange hi] at h
      refine bound_of_no_stray (outOfRange_eq_nil.mp hi) fun hw => ?_
      rw [if_pos (any_hasWildcard_iff.mpr hw)] at h
      cases h
    · rw [checkReferences_of_stray hi] at h
      cases h
  · intro h
    have hi : outOfRange n es = [] := outOfRange_eq_nil.mpr fun i hi => hi.2 ((h _ hi.1).2 i rfl)
    rw [checkReferences_of_inRange hi, if_neg (mt any_hasWildcard_iff.mp fun hw => (h _ hw).1 rfl)]

theorem checkReferences_eq_ok :
    checkReferences n es = .ok () ↔
      ∀ e ∈ es, e.hasWildcard = false ∧ ∀ i ∈ e.columns, Schema.inRange n i = true := by
  rw [checkReferences_eq_ok_iff_bound, bound_postorderAll_iff]
  simp only [bound_postorder_iff]

end references

section derivation
variable {s : Schema}

theorem fault?_binaryField (op : String) (l r : Field) :
    (binaryField op l r).fault? =
      if (Operator.ofText? op).isNone then some (.unknownOperator op) else none := by
  unfold binaryField
  cases Operator.ofText? op with
  | none => rfl
  | some o =>
    dsimp only
    split
    · rfl
    · split <;> rfl

mutual
/-- Where all references exist and no wildcard is left, there is a field unless some node has a
defect, and then the first defect is what is reported. -/
theorem fault?_derive {e : Expr} (h : Bound s.length e.postorder) :
    (derive s e).fault? = e.postorder.findSome? defect? := by
  cases e with
  | column i =>
    obtain ⟨f, hf⟩ := Schema.at?_of_inRange (s := s) (i := i)
      (by simpa [Schema.inRange] using (h _ (List.mem_singleton.mpr rfl)).2 i rfl)
    rw [derive, hf]
    rfl
  | literal v t => rfl
  | wildcard => exact absurd rfl (h _ (List.mem_singleton.mpr rfl)).1
  | bare => rfl
  | binary l op r =>
    rw [postorder, bound_append, bound_append] at h
    rw [postorder, List.findSome?_append, List.findSome?_append, ← fault?_derive h.1.1,
      ← fault?_derive h.1.2, Option.or_assoc, derive]
    refine Outcome.fault?_bind fun left _ => Outcome.fault?_bind fun right _ => ?_
    rw [fault?_binaryField, List.findSome?_singleton, defect?]
  | aggregate name args t =>
    rw [postorder, bound_append] at h
    rw [postorder, List.findSome?_append, ← fault?_deriveAll h.1]
    exact Outcome.fault?_bind fun _ _ => rfl
  | not e | isNull e | isNotNull e | cast e _ | «alias» e _ =>
    rw [postorder, bound_append] at h
    rw [postorder, List.findSome?_append, ← fault?_derive h.1]
    exact Outcome.fault?_bind fun _ _ => rfl

theorem fault?_deriveAll {es : List Expr} (h : Bound s.length (postorderAll es)) :
    (deriveAll s es).fault? = (postorderAll es).findSome? defect? := by
  cases es with
  | nil => rfl
  | cons e es =>
    rw [postorderAll, bound_append] at h
    rw [postorderAll, List.findSome?_append, ← fault?_derive h.1, ← fault?_deriveAll h.2,
      deriveAll]
    refine Outcome.fault?_bind fun f _ => ?_
    exact Outcome.fault?_bind_ok (deriveAll s es) (f :: ·)
end

theorem deriveAll_eq_ok {es : List Expr} {fs : Schema} :
    deriveAll s es = .ok fs ↔ List.Forall₂ (fun e f => derive s e = .ok f) es fs := by
  induction es generalizing fs with
  | nil =>
    rw [List.forall₂_nil_left_iff]
    exact ⟨fun h => (Except.ok.inj h).symm, fun h => h ▸ rfl⟩
  | cons e es ih =>
    rw [List.forall₂_cons_left_iff, deriveAll, Outcome.bind_eq_ok]
    constructor
    · rintro ⟨f, hf, h⟩
      obtain ⟨fs', hfs, h⟩ := Outcome.bind_eq_ok.mp h
      exact ⟨f, fs', hf, ih.mp hfs, (Except.ok.inj h).symm⟩
    · rintro ⟨f, fs', hf, hfs, rfl⟩
      exact ⟨f, hf, Outcome.bind_eq_ok.mpr ⟨fs', ih.mpr hfs, rfl⟩⟩

theorem fields_eq_ok {es : List Expr} {fs : Schema} :
    fields s es = .ok fs ↔ Bound s.length (postorderAll es) ∧ deriveAll s es = .ok fs := by
  rw [fields, Outcome.bind_eq_ok, ← checkReferences_eq_ok_iff_bound, Unique.exists_iff]

theorem field_eq_ok {e : Expr} {f : Field} :
    field s e = .ok f ↔ Bound s.length e.postorder ∧ derive s e = .ok f := by
  have hs : Bound s.length e.postorder ↔ Bound s.length (postorderAll [e]) := by
    rw [bound_postorderAll_iff, List.forall_mem_singleton]
  rw [field, Outcome.bind_eq_ok, hs, ← checkReferences_eq_ok_iff_bound, Unique.exists_iff]

theorem fields_eq_ok_iff {es : List Expr} {fs : Schema} :
    fields s es = .ok fs ↔ List.Forall₂ (fun e f => field s e = .ok f) es fs := by
  rw [fields_eq_ok, bound_postorderAll_iff, deriveAll_eq_ok, ← List.forall₂_and_left]
  simp only [field_eq_ok]

theorem fields_nil_ne_ok {gs : Schema} {es : List Expr} (hne : es ≠ [])
    (hc : ∀ e ∈ es, e.columns ≠ []) :
    fields [] es ≠ .ok gs := by
  intro h
  obtain ⟨e, es, rfl⟩ := List.exists_cons_of_ne_nil hne
  have he := bound_postorderAll_iff.mp (fields_eq_ok.mp h).1 e (List.mem_cons_self ..)
  obtain ⟨i, hi⟩ := List.exists_mem_of_ne_nil _ (hc e (List.mem_cons_self ..))
  have hin := (bound_postorder_iff.mp he).2 i hi
  simp [Schema.inRange] at hin
  omega

section failing
variable {es : List Expr}

theorem fields_of_stray (h : outOfRange s.length es ≠ []) :
    fields s es =
      .error (.schema
        { invalidIndices := outOfRange s.length es, fieldCount := some s.length }) := by
  rw [fields, checkReferences_of_stray h]
  rfl

theorem fields_of_wildcard (h : outOfRange s.length es = []) (hw : .wildcard ∈ postorderAll es) :
    fields s es = .error (.schema { misplacedWildcard := true }) := by
  rw [fields, checkReferences_of_inRange h, if_pos (any_hasWildcard_iff.mpr hw)]
  rfl

theorem fault?_fields (h : outOfRange s.length es = []) (hw : .wildcard ∉ postorderAll es) :
    (fields s es).fault? = (postorderAll es).findSome? defect? := by
  rw [fields, checkReferences_of_inRange h, if_neg (mt any_hasWildcard_iff.mp hw)]
  exact fault?_deriveAll (bound_of_no_stray (outOfRange_eq_nil.mp h) hw)

theorem kind_of_fault {fault : Fault} (h : fields s es = .error fault) :
    (outOfRange s.length es ≠ [] ∧
        fault = .schema
          { invalidIndices := outOfRange s.length es, fieldCount := some s.length }) ∨
      (.wildcard ∈ postorderAll es ∧ fault = .schema { misplacedWildcard := true }) ∨
      (∃ op, fault = .unknownOperator op) ∨ fault = .unknownExpression "Expr" := by
  by_cases hi : outOfRange s.length es = []
  · by_cases hw : .wildcard ∈ postorderAll es
    · rw [fields_of_wildcard hi hw] at h
      exact .inr (.inl ⟨hw, (Except.error.inj h).symm⟩)
    · rw [← Outcome.fault?_eq_some, fault?_fields hi hw] at h
      exact .inr (.inr (kind_of_defect h))
  · rw [fields_of_stray hi] at h
    exact .inl ⟨hi, (Except.error.inj h).symm⟩

end failing

end derivation
end Expr
end LazyQuery
