import LazyQuery.Proofs.Expr.Derivation

/-! Expressions over the results of others. Putting the others in the place of the columns gives an
expression over their own input, which has the same field there. -/
namespace LazyQuery.Expr

mutual
/-- The expression with the other expressions in the place of its columns. -/
def substitute (es : List Expr) : Expr → Expr
  | .column i => ((Schema.position? es.length i).bind (es[·]?)).getD (.column i)
  | .literal v t => .literal v t
  | .wildcard => .wildcard
  | .aggregate name args returns => .aggregate name (substituteAll es args) returns
  | .binary l op r => .binary (l.substitute es) op (r.substitute es)
  | .not e => .not (e.substitute es)
  | .isNull e => .isNull (e.substitute es)
  | .isNotNull e => .isNotNull (e.substitute es)
  | .cast e t => .cast (e.substitute es) t
  | .alias e name => .alias (e.substitute es) name
  | .bare => .bare

def substituteAll (es : List Expr) : List Expr → List Expr
  | [] => []
  | f :: fs => f.substitute es :: substituteAll es fs
end

theorem substituteAll_eq_map (es fs : List Expr) :
    substituteAll es fs = fs.map (substitute es) := by
  induction fs with
  | nil => rfl
  | cons f fs ih => rw [substituteAll, ih, List.map_cons]

section column
variable {es : List Expr} {i : Int}

theorem substitute_column {k : Nat} {e : Expr} (hk : Schema.position? es.length i = some k)
    (he : es[k]? = some e) : (column i).substitute es = e := by
  rw [substitute, hk, Option.bind_some, he, Option.getD_some]

theorem exists_of_bound (h : Bound es.length (column i).postorder) :
    ∃ k e, Schema.position? es.length i = some k ∧ es[k]? = some e ∧
    (column i).substitute es = e := by
  obtain ⟨h0, hlt⟩ := (h _ (List.mem_singleton.mpr rfl)).2 i rfl
  have hk : Schema.position? es.length i = some i.toNat :=
    by rw [Schema.position?, if_pos h0, if_pos hlt]
  have he : es[i.toNat]? = some es[i.toNat] := List.getElem?_eq_getElem (by omega)
  exact ⟨_, _, hk, he, substitute_column hk he⟩

end column

section substitution
variable {s t : Schema} {es : List Expr}

mutual
theorem bound_substitute {n : Nat} (hes : Bound n (postorderAll es)) {f : Expr}
    (h : Bound es.length f.postorder) : Bound n (f.substitute es).postorder := by
  cases f with
  | column i =>
    obtain ⟨k, e, -, he, hs⟩ := exists_of_bound h
    rw [hs]
    exact bound_postorderAll_iff.mp hes e (List.mem_of_getElem? he)
  | wildcard => exact absurd rfl (h _ (List.mem_singleton.mpr rfl)).1
  | literal | bare => exact bound_node rfl rfl
  | binary l op r =>
    rw [postorder, bound_append, bound_append] at h
    rw [substitute, postorder, bound_append, bound_append]
    exact ⟨⟨bound_substitute hes h.1.1, bound_substitute hes h.1.2⟩, bound_node rfl rfl⟩
  | aggregate name args returns =>
    rw [postorder, bound_append] at h
    rw [substitute, postorder, bound_append]
    exact ⟨bound_substituteAll hes h.1, bound_node rfl rfl⟩
  | not e | isNull e | isNotNull e | cast e _ | «alias» e _ =>
    rw [postorder, bound_append] at h
    rw [substitute, postorder, bound_append]
    exact ⟨bound_substitute hes h.1, bound_node rfl rfl⟩

theorem bound_substituteAll {n : Nat} (hes : Bound n (postorderAll es)) {fs : List Expr}
    (h : Bound es.length (postorderAll fs)) : Bound n (postorderAll (substituteAll es fs)) := by
  cases fs with
  | nil => exact nofun
  | cons f fs =>
    rw [postorderAll, bound_append] at h
    rw [substituteAll, postorderAll, bound_append]
    exact ⟨bound_substitute hes h.1, bound_substituteAll hes h.2⟩
end

mutual
/-- The field of an expression over the fields of others is the field of what it is
over their input. -/
theorem derive_substitute (hes : deriveAll s es = .ok t) {f : Expr}
    (h : Bound es.length f.postorder) :
    derive s (f.substitute es) = derive t f := by
  cases f with
  | column i =>
    obtain ⟨k, e, hk, he, hs⟩ := exists_of_bound h
    have hall := deriveAll_eq_ok.mp hes
    obtain ⟨field, hfield, hd⟩ := Outcome.exists_of_forall₂_getElem? hall he
    rw [hs, hd, derive, Schema.at?, ← hall.length_eq, hk, Option.bind_some, hfield]
  | literal | wildcard | bare => rfl
  | binary l op r =>
    rw [postorder, bound_append, bound_append] at h
    rw [substitute, derive, derive, derive_substitute hes h.1.1, derive_substitute hes h.1.2]
  | aggregate name args returns =>
    rw [postorder, bound_append] at h
    rw [substitute, derive, derive, deriveAll_substituteAll hes h.1]
  | not e | isNull e | isNotNull e | cast e _ | «alias» e _ =>
    rw [postorder, bound_append] at h
    rw [substitute, derive, derive, derive_substitute hes h.1]

theorem deriveAll_substituteAll (hes : deriveAll s es = .ok t) {fs : List Expr}
    (h : Bound es.length (postorderAll fs)) : deriveAll s (substituteAll es fs) =
      deriveAll t fs := by
  cases fs with
  | nil => rfl
  | cons f fs =>
    rw [postorderAll, bound_append] at h
    rw [substituteAll, deriveAll, deriveAll, derive_substitute hes h.1,
      deriveAll_substituteAll hes h.2]
end

theorem fields_substituteAll (hes : fields s es = .ok t) {fs : List Expr} {u : Schema}
    (h : fields t fs = .ok u) : fields s (substituteAll es fs) = .ok u := by
  obtain ⟨hb, hd⟩ := fields_eq_ok.mp hes
  obtain ⟨hb', hd'⟩ := fields_eq_ok.mp h
  rw [← (deriveAll_eq_ok.mp hd).length_eq] at hb'
  exact fields_eq_ok.mpr ⟨bound_substituteAll hb hb',
    (deriveAll_substituteAll hd hb').trans hd'⟩

theorem field_substitute (hes : fields s es = .ok t) {f : Expr} {field : Field}
    (h : Expr.field t f = .ok field) : Expr.field s (f.substitute es) = .ok field := by
  obtain ⟨hb, hd⟩ := fields_eq_ok.mp hes
  obtain ⟨hb', hd'⟩ := field_eq_ok.mp h
  rw [← (deriveAll_eq_ok.mp hd).length_eq] at hb'
  exact field_eq_ok.mpr ⟨bound_substitute hb hb', (derive_substitute hd hb').trans hd'⟩

end substitution
end LazyQuery.Expr
