import LazyQuery.Expr.Equality
import LazyQuery.Proofs.Expr.Derivation
import LazyQuery.Proofs.Frame.Filtering
import Mathlib.Tactic.Ring

/-! Wildcards in lists of expressions. Every item of a list goes behind the columns that
the wildcards before it stand for, and the fields of a projection are those of its items
one after another. -/
namespace LazyQuery

namespace Expr
variable {n j k : Nat} {e : Expr} {es : List Expr}

theorem equal_wildcard (e : Expr) : e.equal .wildcard = e.isWildcard := by
  cases e <;> rfl

/-- A list without an item that equals a wildcard is left as it is; else such items are replaced,
each by itself. -/
theorem expandWildcards_eq_ite (n : Nat) (es : List Expr) :
    expandWildcards n es =
      if es.any (·.equal .wildcard) then
        es.flatMap fun e => if e.equal .wildcard then everyColumn n else [e]
      else es := by
  simp only [equal_wildcard]
  split
  · rfl
  · rename_i h
    exact expandWildcards_eq (by simpa using h)

/-- Each wildcard makes the list longer by all columns but the one in its own place. -/
theorem length_expandWildcards (n : Nat) (es : List Expr) :
    ((expandWildcards n es).length : Int) = es.length + es.countP isWildcard * ((n : Int) - 1) := by
  induction es with
  | nil => simp [expandWildcards]
  | cons e es ih =>
    rw [expandWildcards_cons, List.length_append, List.countP_cons, List.length_cons]
    by_cases he : e.isWildcard = true
    · rw [if_pos he, if_pos he, length_everyColumn]
      push_cast
      rw [ih]
      ring
    · rw [if_neg he, if_neg he, List.length_singleton, Nat.add_zero]
      push_cast
      rw [ih]
      ring

theorem getElem?_expandWildcards (h : es[j]? = some e) (k : Nat)
    (hk : k < (expandWildcards n [e]).length) :
    (expandWildcards n es)[(expandWildcards n (es.take j)).length + k]? =
      (expandWildcards n [e])[k]? := by
  obtain ⟨hj, rfl⟩ := List.getElem?_eq_some_iff.mp h
  have hsplit : expandWildcards n es = expandWildcards n (es.take j) ++
      (expandWildcards n [es[j]] ++ expandWildcards n (es.drop (j + 1))) := by
    rw [← expandWildcards_append, ← expandWildcards_append]
    simp
  rw [hsplit, List.getElem?_append_right (Nat.le_add_right ..), Nat.add_sub_cancel_left,
    List.getElem?_append_left hk]

theorem isWildcard_of_mem_expandWildcards (h : e ∈ expandWildcards n es) :
    e.isWildcard = false := by
  obtain ⟨d, -, he⟩ := List.mem_flatMap.mp h
  split at he
  · obtain ⟨i, -, rfl⟩ := List.mem_map.mp he
    rfl
  · rename_i hd
    obtain rfl := List.mem_singleton.mp he
    simpa using hd

/-- A list without wildcards has none to expand, for whatever number of columns. -/
theorem expandWildcards_expandWildcards (m n : Nat) (es : List Expr) :
    expandWildcards m (expandWildcards n es) = expandWildcards n es :=
  expandWildcards_eq fun _ => isWildcard_of_mem_expandWildcards

theorem hasWildcard_eq (e : Expr) : e.hasWildcard =
    (e.isWildcard || e.children.any hasWildcard) := by
  cases e <;> simp [hasWildcard, isWildcard, children, anyWildcard_eq_any]

theorem any_hasWildcard_expandWildcards :
    (expandWildcards n es).any hasWildcard = true ↔
    ∃ e ∈ es, ∃ c ∈ e.children, c.hasWildcard = true := by
  induction es with
  | nil => simp [expandWildcards]
  | cons e es ih =>
    rw [expandWildcards_cons, List.any_append, Bool.or_eq_true, ih, List.exists_mem_cons_iff]
    refine or_congr_left ?_
    by_cases he : e.isWildcard = true
    · rw [if_pos he, isWildcard_iff.mp he]
      simp [everyColumn, hasWildcard, children]
    · rw [if_neg he, List.any_cons, List.any_nil, Bool.or_false, hasWildcard_eq,
        Bool.eq_false_iff.mpr he, Bool.false_or, List.any_eq_true]

theorem outOfRange_eq_nil_iff_columns :
    outOfRange n es = [] ↔ ∀ e ∈ es, ∀ i ∈ e.columns, 0 ≤ i ∧ i < (n : Int) := by
  rw [outOfRange_eq_nil, ← not_exists, ← not_iff_not, not_not]
  simp only [Stray, ← mem_filterMap_column?, ← columnsOfAll_eq_filterMap,
    columnsOfAll_eq_flatMap, List.mem_flatMap, not_forall, exists_prop]
  constructor
  · rintro ⟨i, ⟨e, he, hi⟩, hn⟩
    exact ⟨e, he, i, hi, hn⟩
  · rintro ⟨e, he, i, hi, hn⟩
    exact ⟨i, ⟨e, he, hi⟩, hn⟩

theorem outOfRange_expandWildcards :
    outOfRange n (expandWildcards n es) = [] ↔ ∀ e ∈ es, ∀ i ∈ e.columns, 0 ≤ i ∧
    i < (n : Int) := by
  rw [outOfRange_eq_nil_iff_columns]
  induction es with
  | nil => simp [expandWildcards]
  | cons e es ih =>
    rw [expandWildcards_cons, List.forall_mem_append, List.forall_mem_cons]
    refine and_congr ?_ ih
    by_cases he : e.isWildcard = true
    · rw [if_pos he, isWildcard_iff.mp he]
      simp [everyColumn, columns]
    · rw [if_neg he, List.forall_mem_singleton]

section fields
variable {s fs part : Schema}

theorem field_column {f : Field} : field s (.column (k : Int)) = .ok f ↔ s[k]? = some f := by
  have hat : s.at? (k : Int) = s[k]? := by
    by_cases hk : k < s.length
    · have hin : Schema.inRange s.length k = true := by simp [Schema.inRange, hk]
      rw [Schema.at?, Schema.position?_of_inRange hin]
      rfl
    · rw [Schema.at?, List.getElem?_eq_none (by omega)]
      simp [Schema.position?, hk]
  rw [field_eq_ok, derive, hat, postorder]
  cases hf : s[k]? with
  | none => simp [fail]
  | some g =>
    have hk : k < s.length := (List.getElem?_eq_some_iff.mp hf).1
    simp [Bound, hk]

theorem forall₂_everyColumn :
    List.Forall₂ (fun e f => field s e = .ok f) (everyColumn s.length) fs ↔ fs = s := by
  simp only [everyColumn, List.forall₂_map_left_iff, Int.ofNat_eq_natCast, field_column]
  constructor
  · intro h
    refine List.ext_getElem (h.length_eq.symm.trans List.length_range) fun k hk hk' => ?_
    have hs := (List.forall₂_iff_get.mp h).2 k (by simpa using hk') hk
    simpa [hk'] using hs.symm
  · rintro rfl
    refine List.forall₂_iff_get.mpr ⟨List.length_range, fun k hk hk' => ?_⟩
    simp

/-- What an item gives a projection: a wildcard the fields of the input, another
expression its own field. -/
def Gives (s : Schema) (e : Expr) (part : Schema) : Prop :=
  (e = .wildcard ∧ part = s) ∨ (e ≠ .wildcard ∧ ∃ f, field s e = .ok f ∧ part = [f])

theorem forall₂_singleton_left {α β : Type} {R : α → β → Prop} {a : α} {bs : List β} :
    List.Forall₂ R [a] bs ↔ ∃ b, R a b ∧ bs = [b] := by
  rw [List.forall₂_cons_left_iff]
  simp [List.forall₂_nil_left_iff]

theorem forall₂_append_left {α β : Type} {R : α → β → Prop} {as as' : List α}
    {bs : List β} :
    List.Forall₂ R (as ++ as') bs ↔
      ∃ cs cs', List.Forall₂ R as cs ∧ List.Forall₂ R as' cs' ∧ bs = cs ++ cs' := by
  constructor
  · intro h
    have h := h.flip
    exact ⟨_, _, (List.forall₂_take_append _ _ _ h).flip,
      (List.forall₂_drop_append _ _ _ h).flip, (List.take_append_drop ..).symm⟩
  · rintro ⟨cs, cs', h, h', rfl⟩
    exact List.rel_append h h'

theorem gives_iff :
    List.Forall₂ (fun e f => field s e = .ok f)
    (if e.isWildcard then everyColumn s.length else [e]) part ↔
      Gives s e part := by
  by_cases he : e.isWildcard = true
  · rw [if_pos he, forall₂_everyColumn, Gives, isWildcard_iff.mp he]
    simp
  · rw [if_neg he, forall₂_singleton_left, Gives]
    simp [mt isWildcard_iff.mpr he]

/-- An expanded list has fields exactly if each item gives some, and they stand
one after another. -/
theorem fields_expandWildcards :
    fields s (expandWildcards s.length es) = .ok fs ↔
      ∃ parts, List.Forall₂ (Gives s) es parts ∧ fs = parts.flatten := by
  rw [fields_eq_ok_iff]
  induction es generalizing fs with
  | nil => simp [expandWildcards, List.forall₂_nil_left_iff]
  | cons e es ih =>
    simp only [expandWildcards_cons, forall₂_append_left, gives_iff, ih,
      List.forall₂_cons_left_iff]
    constructor
    · rintro ⟨part, rest, he, ⟨parts, hes, rfl⟩, rfl⟩
      exact ⟨part :: parts, ⟨part, parts, he, hes, rfl⟩, rfl⟩
    · rintro ⟨-, ⟨part, parts, he, hes, rfl⟩, rfl⟩
      exact ⟨part, parts.flatten, he, ⟨parts, hes, rfl⟩, rfl⟩

/-- A wildcard is reported where it is a part of an item, but only if all references are to
fields that exist. -/
theorem misplaced_expandWildcards :
    (∃ fault, fields s (expandWildcards s.length es) = .error (.schema fault) ∧
        fault.misplacedWildcard = true) ↔
      (∀ e ∈ es, ∀ i ∈ e.columns, 0 ≤ i ∧ i < (s.length : Int)) ∧
        ∃ e ∈ es, ∃ c ∈ e.children, c.hasWildcard = true := by
  rw [← outOfRange_expandWildcards, ← any_hasWildcard_expandWildcards (n := s.length),
    any_hasWildcard_iff]
  constructor
  · rintro ⟨fault, h, hm⟩
    have hi : outOfRange s.length (expandWildcards s.length es) = [] := by
      by_contra hne
      rw [fields_of_stray hne] at h
      cases Fault.schema.inj (Except.error.inj h)
      cases hm
    refine ⟨hi, ?_⟩
    rcases kind_of_fault h with ⟨hne, -⟩ | ⟨hw, -⟩ | ⟨op, h⟩ | h
    · exact absurd hi hne
    · exact hw
    all_goals cases h
  · exact fun ⟨hi, hw⟩ => ⟨_, fields_of_wildcard hi hw, rfl⟩

end fields
end Expr

namespace Frame
open LazyQuery.Expr

/-- Where an item of a projection list goes: as far behind its own place as the wildcards before it
are longer than one. -/
theorem length_expandWildcards_take {n j : Nat} {es : List Expr} (hj : j ≤ es.length) :
    ((expandWildcards n (es.take j)).length : Int) =
      j + (es.take j).countP isWildcard * ((n : Int) - 1) := by
  rw [length_expandWildcards, List.length_take_of_le hj]

section project
variable {f : Frame} {s t : Schema} {es : List Expr}

theorem project_eq (hs : f.schema = .ok s) :
    f.project es = (fields s (expandWildcards s.length es) >>= fun fs =>
      .ok ⟨.projection (expandWildcards s.length es) f.plan fs, f.context⟩) := by
  rw [project, hs, Outcome.ok_bind]

theorem project_error_iff {fault : Fault} (hs : f.schema = .ok s) :
    f.project es = .error fault ↔ fields s (expandWildcards s.length es) = .error fault := by
  rw [← Outcome.fault?_eq_some, ← Outcome.fault?_eq_some, project_eq hs, Outcome.fault?_bind_ok]

theorem exists_project_ok_iff (hs : f.schema = .ok s) :
    (∃ g, f.project es = .ok g ∧ g.schema = .ok t) ↔
    fields s (expandWildcards s.length es) = .ok t := by
  constructor
  · rintro ⟨g, hg, ht⟩
    obtain ⟨fs, hfs, -, hplan⟩ := project_ok hs hg
    rw [schema, hplan] at ht
    exact hfs.trans ht
  · intro ht
    exact ⟨_, by rw [project_eq hs, ht, Outcome.ok_bind], rfl⟩

end project

/-- Wildcards in a projection. The list is left as it is where no item equals a wildcard; else each
such item is replaced by a reference to every column, and no other item changes. So an item with
`k` wildcards before it goes from place `j` to place `j + k * (n - 1)`, as the first of `n` columns
if it is a wildcard itself. Lists may be expanded apart and joined then, and nothing is left to
expand. The projection reports a misplaced wildcard exactly if all references are to fields that
exist and some item has a wildcard among its parts; and it succeeds exactly if each item gives
fields, its schema being what they give one after another, whatever the names and the number of
fields of the input. -/
theorem project_expanded {f : Frame} {s : Schema} (hs : f.schema = .ok s) (es : List Expr) :
    (expandWildcards s.length es =
      if es.any (·.equal .wildcard) then
        es.flatMap fun e => if e.equal .wildcard then everyColumn s.length else [e]
      else es) ∧
    (∀ j e, es[j]? = some e → ∃ p : Nat,
      (p : Int) = j + (es.take j).countP isWildcard * ((s.length : Int) - 1) ∧
      (e = .wildcard →
        ∀ i < s.length, (expandWildcards s.length es)[p + i]? = some (.column i)) ∧
      (e ≠ .wildcard → (expandWildcards s.length es)[p]? = some e)) ∧
    ((expandWildcards s.length es).length : Int) =
      es.length + es.countP isWildcard * ((s.length : Int) - 1) ∧
    (∀ es', expandWildcards s.length (es ++ es') =
      expandWildcards s.length es ++ expandWildcards s.length es') ∧
    (∀ m, expandWildcards m (expandWildcards s.length es) = expandWildcards s.length es) ∧
    ((∃ fault, f.project es = .error (.schema fault) ∧ fault.misplacedWildcard = true) ↔
      (∀ e ∈ es, ∀ i ∈ e.columns, 0 ≤ i ∧ i < (s.length : Int)) ∧
        ∃ e ∈ es, ∃ c ∈ e.children, c.hasWildcard = true) ∧
    (∀ t, (∃ g, f.project es = .ok g ∧ g.schema = .ok t) ↔
      ∃ parts, List.Forall₂ (Gives s) es parts ∧ t = parts.flatten) := by
  refine ⟨expandWildcards_eq_ite .., fun j e hj => ?_, length_expandWildcards ..,
    expandWildcards_append s.length es, fun m => expandWildcards_expandWildcards m .., ?_,
    fun t => ?_⟩
  · have hle : j ≤ es.length := (List.getElem?_eq_some_iff.mp hj).1.le
    refine ⟨_, length_expandWildcards_take hle, ?_, fun he => ?_⟩
    · rintro rfl i hi
      have hone : expandWildcards s.length [.wildcard] = everyColumn s.length := by
        simp [expandWildcards, isWildcard]
      rw [getElem?_expandWildcards hj i (by rwa [hone, length_everyColumn]), hone,
        getElem?_everyColumn hi]
    · have hone : expandWildcards s.length [e] = [e] := by
        simp [expandWildcards, mt isWildcard_iff.mp he]
      have hp := getElem?_expandWildcards (n := s.length) hj 0 (by simp [hone])
      rwa [hone] at hp
  · rw [← misplaced_expandWildcards]
    exact exists_congr fun fault => and_congr_left fun _ => project_error_iff hs
  · rw [exists_project_ok_iff hs, fields_expandWildcards]

def repeated : Schema := [⟨"k", .int64, true⟩, ⟨"k", .string, false⟩]

def aroundLiteral : List Expr :=
  [.alias (.column 1) "v", .wildcard, .literal (.int 7) .int64, .wildcard]

theorem project_expanded_repeated :
    (∃ g, (empty (.here [] .standard) repeated).project aroundLiteral = .ok g ∧
      g.schema = .ok ([⟨"v", .string, false⟩] ++ repeated ++ [⟨"7", .int64, true⟩] ++
        repeated)) ∧
    (expandWildcards 2 aroundLiteral)[3]? = some (.literal (.int 7) .int64) := by
  obtain ⟨-, hplace, -, -, -, -, hschema⟩ :=
    project_expanded (f := empty (.here [] .standard) repeated) rfl aroundLiteral
  constructor
  · refine (hschema _).mpr ⟨[[⟨"v", .string, false⟩], repeated, [⟨"7", .int64, true⟩],
      repeated],
      .cons (.inr ⟨nofun, _, ?_, rfl⟩)
      (.cons (.inl ⟨rfl, rfl⟩) (.cons (.inr ⟨nofun, _, ?_, rfl⟩)
        (.cons (.inl ⟨rfl, rfl⟩) .nil))), rfl⟩
    · rfl
    · rfl
  · obtain ⟨p, hp, -, hstays⟩ := hplace 2 _ rfl
    have hthree : p = 3 := by
      simp [aroundLiteral, isWildcard, repeated] at hp
      omega
    exact hthree ▸ hstays nofun

end Frame
end LazyQuery
