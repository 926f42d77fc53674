import LazyQuery.Engine.Artifact
import LazyQuery.Proofs.Engine.Replacement
import Mathlib.Data.List.Nodup

/-! Selecting columns of one relation, by names or as terms with names of their own. What comes out
of it has no names, so that nothing but the formulas and their types counts as long as the selection
can be made at all. -/
namespace LazyQuery.Engine

abbrev Found := List (String × Formula × ColumnType)

/-- The same failure, or the same formulas and types under names that are distinct in each. -/
structure Alike (x y : Outcome Found) : Prop where
  columns : x.map (List.map (·.2)) = y.map (List.map (·.2))
  left : ∀ found, x = .ok found → (found.map (·.1)).Nodup
  right : ∀ found, y = .ok found → (found.map (·.1)).Nodup

section execution
variable {files : Files} {r : Relation} {s : Schema} {size : Int} {c d : Choice} {h : Header}
  {found : Found}

theorem execute_of_header_error {e : Fault} (hr : r.header files = .error e) :
    execute files r s size = .error e := by
  rw [execute, Relation.collect, hr]
  rfl

theorem execute_select_error {e : Fault} (hr : r.header files = .error e) :
    execute files (.select c r) s size = .error e := by
  apply execute_of_header_error
  rw [Relation.header, hr]
  rfl

theorem header_select (hr : r.header files = .ok h) :
    (Relation.select c r).header files =
      (c.resolve h >>= fun found => Header.distinct (found.map fun (name, _, t) => (name, t))) := by
  rw [Relation.header, hr, Outcome.ok_bind]

theorem distinct_found (hn : (found.map (·.1)).Nodup) :
    Header.distinct (found.map fun (name, _, t) => (name, t)) =
      .ok (found.map fun (name, _, t) => (name, t)) := by
  rw [Header.distinct, if_pos]
  rw [List.map_map]
  exact hn

theorem distinct_repeated (hn : ¬(found.map (·.1)).Nodup) :
    Header.distinct (found.map fun (name, _, t) => (name, t)) = fail .repeatedColumn := by
  rw [Header.distinct, if_neg]
  rw [List.map_map]
  exact hn

theorem execute_of_resolve_error {e : Fault} (hr : r.header files = .ok h)
    (hc : c.resolve h = .error e) : execute files (.select c r) s size = .error e := by
  apply execute_of_header_error
  rw [header_select hr, hc]
  rfl

theorem execute_repeated (hr : r.header files = .ok h) (hc : c.resolve h = .ok found)
    (hn : ¬(found.map (·.1)).Nodup) :
    execute files (.select c r) s size = fail .repeatedColumn := by
  apply execute_of_header_error
  rw [header_select hr, hc]
  exact distinct_repeated hn

theorem handed_nil (fs : List Formula) : Relation.handed fs [] = ([], []) := by
  rw [Relation.handed]
  split <;> rfl

theorem passed_none (fs held : List Formula) : Relation.passed none fs held = none := ite_self none

theorem run_select_all (hr : r.header files = .ok h) (hc : c.resolve h = .ok found) :
    (Relation.select c r).run files [] none =
      (r.run files [] none >>= fun t =>
        (found.map (·.2.1)).mapM (Formula.eval none t.columns) >>= fun es =>
          .ok (selected t.rows es)) := by
  rw [Relation.run, hr, Outcome.ok_bind, hc, Outcome.ok_bind]
  dsimp only
  rw [handed_nil, passed_none]
  rfl

/-- The batches of a selection depend on its names only in that they have to be distinct. -/
theorem execute_select {columns : List (Formula × ColumnType)} (hr : r.header files = .ok h)
    (hc : c.resolve h = .ok found) (hn : (found.map (·.1)).Nodup)
    (hu : found.map (·.2) = columns) :
    execute files (.select c r) s size =
      (r.run files [] none >>= fun t =>
        (columns.map (·.1)).mapM (Formula.eval none t.columns) >>= fun es =>
          (selected t.rows es).columns.mapM settle >>= fun cells =>
            Export.batches s ((columns.map (·.2.exported)).zip (cells.map fun cs => [cs]))
              size) := by
  have hh : (Relation.select c r).header files = .ok (found.map fun (name, _, t) => (name, t)) := by
    rw [header_select hr, hc, Outcome.ok_bind, distinct_found hn]
  subst hu
  rw [execute, Relation.collect, hh, Outcome.ok_bind, run_select_all hr hc]
  simp only [bind_assoc, Outcome.ok_bind, List.map_map]
  rfl

/-- Two selections from one relation that are alike have the same batches, or fail alike. -/
theorem execute_alike (ha : ∀ h, r.header files = .ok h → Alike (c.resolve h) (d.resolve h)) :
    execute files (.select c r) s size = execute files (.select d r) s size := by
  cases hr : r.header files with
  | error e => rw [execute_select_error hr, execute_select_error hr]
  | ok h =>
    obtain ⟨hu, hl, hn⟩ := ha h hr
    cases hc : c.resolve h with
    | error e =>
      cases hd : d.resolve h with
      | error e' =>
        rw [hc, hd] at hu
        cases hu
        rw [execute_of_resolve_error hr hc, execute_of_resolve_error hr hd]
      | ok found =>
        rw [hc, hd] at hu
        cases hu
    | ok found =>
      cases hd : d.resolve h with
      | error e =>
        rw [hc, hd] at hu
        cases hu
      | ok found' =>
        rw [hc, hd] at hu
        have he : found.map (·.2) = found'.map (·.2) := Except.ok.inj hu
        rw [execute_select hr hc (hl found hc) he, execute_select hr hd (hn found' hd) rfl]

theorem execute_narrow (hr : r.header files = .ok []) (hs : s ≠ []) :
    ∃ e, execute files r s size = .error e := by
  obtain ⟨f, fs, rfl⟩ := List.exists_cons_of_ne_nil hs
  rw [execute, Relation.collect, hr, Outcome.ok_bind]
  cases r.run files [] none with
  | error e => exact ⟨e, rfl⟩
  | ok t =>
    rw [Outcome.ok_bind]
    cases t.columns.mapM settle with
    | error e => exact ⟨e, rfl⟩
    | ok cells => exact ⟨_, rfl⟩

end execution

section names
variable {h : Header} {n : String} {ns : List String} {found : Found}

theorem names_of_resolveAll {ts : List (String × Term)} (hf : resolveAll h ts = .ok found) :
    found.map (·.1) = ts.map (·.1) := by
  induction ts generalizing found with
  | nil =>
    cases hf
    rfl
  | cons t ts ih =>
    obtain ⟨name, t⟩ := t
    rw [resolveAll_cons] at hf
    obtain ⟨a, -, hf⟩ := Outcome.bind_eq_ok.mp hf
    obtain ⟨rest, hrest, hf⟩ := Outcome.bind_eq_ok.mp hf
    cases hf
    rw [List.map_cons, List.map_cons, ih hrest]

theorem resolve_names_cons (h : Header) (n : String) (ns : List String) :
    (Choice.names (n :: ns)).resolve h =
      (askedFor h n >>= fun found => (Choice.names ns).resolve h >>= fun rest =>
        .ok (found ++ rest)) := by
  simp only [Choice.resolve, List.mapM_cons, bind_assoc, Outcome.ok_bind]
  rfl

theorem askedFor_of_ne (hn : n ≠ "*") (hp : isPattern n = false) :
    askedFor h n = (resolve h (.column n) >>= fun column => .ok [(n, column)]) := by
  rw [askedFor, if_neg hn, hp, if_neg Bool.false_ne_true, resolve, bind_assoc]
  rfl

def columnsOfNames (h : Header) (ns : List String) : Outcome (List (Formula × ColumnType)) :=
  ns.mapM fun n => resolve h (.column n)

/-- The terms that find columns by names and name them by positions from `start` on. -/
def columnTerms (start : Nat) (ns : List String) : List (String × Term) :=
  (ns.zipIdx start).map fun (n, i) => (positionalName i, .column n)

theorem columnsOfNames_cons (h : Header) (n : String) (ns : List String) :
    columnsOfNames h (n :: ns) =
      (resolve h (.column n) >>= fun column => columnsOfNames h ns >>= fun rest =>
        .ok (column :: rest)) := List.mapM_cons

theorem resolve_names (hs : "*" ∉ ns) (hp : ∀ n ∈ ns, isPattern n = false) :
    ((Choice.names ns).resolve h).map (List.map (·.2)) = columnsOfNames h ns := by
  induction ns with
  | nil => rfl
  | cons n ns ih =>
    rw [List.mem_cons, not_or] at hs
    obtain ⟨hpn, hp⟩ := List.forall_mem_cons.mp hp
    rw [resolve_names_cons, askedFor_of_ne (Ne.symm hs.1) hpn, columnsOfNames_cons, ← ih hs.2 hp]
    cases resolve h (.column n) with
    | error e => rfl
    | ok column =>
      cases (Choice.names ns).resolve h <;> rfl

theorem resolve_columnTerms (h : Header) (start : Nat) (ns : List String) :
    (resolveAll h (columnTerms start ns)).map (List.map (·.2)) = columnsOfNames h ns := by
  induction ns generalizing start with
  | nil => rfl
  | cons n ns ih =>
    have hc : columnTerms start (n :: ns) =
        (positionalName start, .column n) :: columnTerms (start + 1) ns := by
      rw [columnTerms, List.zipIdx_cons]
      rfl
    rw [hc, resolveAll_cons, columnsOfNames_cons, ← ih (start + 1)]
    cases resolve h (.column n) with
    | error e => rfl
    | ok column =>
      cases resolveAll h (columnTerms (start + 1) ns) <;> rfl

theorem positionalName_injective : Function.Injective positionalName := by
  intro i j h
  have hr : (Nat.repr i).toList = (Nat.repr j).toList :=
    congrArg String.toList ((String.append_right_inj "_").mp h)
  rw [Nat.toList_repr, Nat.toList_repr] at hr
  rw [← @Nat.ofDigitChars_ten_toDigits i, hr, Nat.ofDigitChars_ten_toDigits]

theorem nodup_columnTerms (start : Nat) (ns : List String) :
    ((columnTerms start ns).map (·.1)).Nodup := by
  have hp : (columnTerms start ns).map (·.1) =
      ((ns.zipIdx start).map Prod.snd).map positionalName := by
    rw [columnTerms, List.map_map, List.map_map]
    rfl
  rw [hp, List.zipIdx_map_snd]
  exact (List.nodup_range' _).map positionalName_injective

def namesAsked (h : Header) (n : String) : List String := if n = "*" then h.map (·.1) else [n]

theorem names_of_askedFor (hp : isPattern n = false) (hf : askedFor h n = .ok found) :
    found.map (·.1) = namesAsked h n ∧ namesAsked h n ⊆ h.map (·.1) := by
  by_cases hn : n = "*"
  · rw [askedFor, if_pos hn] at hf
    cases hf
    rw [namesAsked, if_pos hn]
    refine ⟨?_, List.Subset.refl _⟩
    rw [List.mapIdx_eq_zipIdx_map, List.map_map]
    conv_rhs => rw [← List.zipIdx_map_fst 0 h, List.map_map]
    rfl
  · rw [askedFor, if_neg hn, hp, if_neg Bool.false_ne_true] at hf
    obtain ⟨⟨i, t⟩, hi, hf⟩ := Outcome.bind_eq_ok.mp hf
    cases hf
    rw [namesAsked, if_neg hn]
    refine ⟨rfl, List.cons_subset.mpr ⟨?_, List.nil_subset _⟩⟩
    unfold findColumn at hi
    rw [if_neg hn, hp, if_neg Bool.false_ne_true] at hi
    split at hi
    · rename_i k hk
      obtain ⟨hlt, he, -⟩ := List.findIdx?_eq_some_iff_getElem.mp hk
      exact List.mem_map.mpr ⟨h[k], List.getElem_mem hlt, of_decide_eq_true he⟩
    · cases hi

theorem names_of_resolve_names (hp : ∀ n ∈ ns, isPattern n = false)
    (hf : (Choice.names ns).resolve h = .ok found) :
    found.map (·.1) = ns.flatMap (namesAsked h) ∧
    ∀ n ∈ ns, namesAsked h n ⊆ h.map (·.1) := by
  induction ns generalizing found with
  | nil =>
    cases hf
    exact ⟨rfl, nofun⟩
  | cons n ns ih =>
    rw [resolve_names_cons] at hf
    obtain ⟨asked, ha, hf⟩ := Outcome.bind_eq_ok.mp hf
    obtain ⟨rest, hr, hf⟩ := Outcome.bind_eq_ok.mp hf
    cases hf
    obtain ⟨hpn, hp⟩ := List.forall_mem_cons.mp hp
    obtain ⟨hn, hsub⟩ := names_of_askedFor hpn ha
    obtain ⟨hns, hall⟩ := ih hp hr
    refine ⟨?_, List.forall_mem_cons.mpr ⟨hsub, hall⟩⟩
    rw [List.map_append, List.flatMap_cons, hn, hns]

theorem flatMap_namesAsked (hs : "*" ∉ ns) : ns.flatMap (namesAsked h) = ns := by
  induction ns with
  | nil => rfl
  | cons n ns ih =>
    rw [List.mem_cons, not_or] at hs
    rw [List.flatMap_cons, ih hs.2, namesAsked, if_neg (Ne.symm hs.1)]
    rfl

/-- Distinct names without a star find what terms with names of their own find. -/
theorem alike_columnTerms (hn : ns.Nodup) (hs : "*" ∉ ns) (hp : ∀ n ∈ ns, isPattern n = false)
    (h : Header) (start : Nat) :
    Alike ((Choice.names ns).resolve h) ((Choice.terms (columnTerms start ns)).resolve h) where
  columns := (resolve_names hs hp).trans (resolve_columnTerms h start ns).symm
  left found hf := by
    rw [(names_of_resolve_names hp hf).1, flatMap_namesAsked hs]
    exact hn
  right found hf := by
    rw [names_of_resolveAll hf]
    exact nodup_columnTerms start ns

theorem alike_star (e : String × ColumnType) (start : Nat) :
    Alike ((Choice.names ["*"]).resolve [e]) ((Choice.terms (columnTerms start ["*"])).resolve [e])
    where
  columns := rfl
  left found hf := by
    cases hf
    exact List.nodup_singleton _
  right found hf := by
    rw [names_of_resolveAll hf]
    exact nodup_columnTerms start ["*"]

/-- A star as a term asks for one column, so that a table of several, or of none,
does not have it. -/
theorem resolve_star_error (hw : h.length ≠ 1) (start : Nat) :
    ∃ e, (Choice.terms (columnTerms start ["*"])).resolve h = .error e := by
  match h with
  | [] => exact ⟨_, rfl⟩
  | [_] => exact absurd rfl hw
  | _ :: _ :: _ => exact ⟨_, rfl⟩

theorem repeated_of_resolve_names (hp : ∀ n ∈ ns, isPattern n = false)
    (hf : (Choice.names ns).resolve h = .ok found) (hn : ¬(ns.Nodup ∧ "*" ∉ ns))
    (hs : ns ≠ ["*"]) : ¬(found.map (·.1)).Nodup ∨ found = [] := by
  obtain ⟨hmap, hsub⟩ := names_of_resolve_names hp hf
  rw [hmap]
  by_cases hstar : "*" ∈ ns
  · rw [Classical.or_iff_not_imp_left, not_not]
    intro hd
    have hperm : ns.Perm ("*" :: ns.erase "*") := List.perm_cons_erase hstar
    have hrest : ns.erase "*" ≠ [] := by
      intro he
      rw [he] at hperm
      exact hs (List.perm_singleton.mp hperm)
    -- whatever else is asked for, the star asks for it too
    have hnone : ∀ n ∈ ns.erase "*", namesAsked h n = [] := by
      intro n hm
      have hd' := (hperm.flatMap_right (namesAsked h)).nodup_iff.mp hd
      rw [List.flatMap_cons, List.nodup_append] at hd'
      refine List.eq_nil_iff_forall_not_mem.mpr fun a ha => ?_
      refine hd'.2.2 a ?_ a (List.mem_flatMap.mpr ⟨n, hm, ha⟩) rfl
      rw [namesAsked, if_pos rfl]
      exact hsub n (List.mem_of_mem_erase hm) ha
    obtain ⟨n, rest, he⟩ := List.exists_cons_of_ne_nil hrest
    have hn' := hnone n (he ▸ List.mem_cons_self ..)
    have hnil : h.map (·.1) = [] := by
      rw [namesAsked] at hn'
      split at hn'
      · exact hn'
      · cases hn'
    apply List.map_eq_nil_iff.mp
    rw [hmap]
    refine List.flatMap_eq_nil_iff.mpr fun n hm => ?_
    exact List.subset_nil.mp (hnil ▸ hsub n hm)
  · rw [flatMap_namesAsked hstar]
    exact .inl fun hd => hn ⟨hd, hstar⟩

end names
end LazyQuery.Engine
