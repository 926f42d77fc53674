import LazyQuery.Proofs.Context.Answer
import LazyQuery.Proofs.Engine.Denotation
import LazyQuery.Proofs.Engine.Leaving
import LazyQuery.Proofs.Engine.Selection

/-! What a plan comes to over the files: the layout that its columns are found by, their names and
types, and the table that it gives. Every node has this from its input, and from expressions only by
what they denote there. -/
namespace LazyQuery
open Engine

/-- A plan whose types have been found. -/
structure Opened where
  layout : Schema
  header : Header
  run : List Formula → Option Nat → Option Table

namespace Engine

def positionalHeader (types : List ColumnType) : Header :=
    types.mapIdx fun i t => (positionalName i, t)

def formulas? (layout : Schema) (h : Header)
    (es : List Expr) : Option (List (Formula × ColumnType)) :=
  es.mapM (formula? layout h)

theorem formulas?_cons {layout : Schema} {h : Header} {e : Expr} {es : List Expr} :
    formulas? layout h (e :: es) =
      (formula? layout h e).bind fun x => (formulas? layout h es).map fun xs => x :: xs := by
  rw [formulas?, List.mapM_cons, Option.bind_eq_bind]
  cases formula? layout h e with
  | none => rfl
  | some x => cases hes : es.mapM (formula? layout h) <;> simp [formulas?, hes]

theorem formulas?_append {layout : Schema} {h : Header} {es es' : List Expr} :
    formulas? layout h (es ++ es') =
      (formulas? layout h es).bind fun xs => (formulas? layout h es').map fun ys => xs ++ ys := by
  rw [formulas?, List.mapM_append, Option.bind_eq_bind]
  cases hes : es.mapM (formula? layout h) with
  | none => simp [formulas?, hes]
  | some xs => cases hes' : es'.mapM (formula? layout h) <;> simp [formulas?, hes, hes']

section denoted
variable {layout : Schema} {h : Header} {es : List Expr} {xs : List (Formula × ColumnType)}

theorem formulas?_eq_some :
    formulas? layout h es = some xs ↔
      List.Forall₂ (fun e x => Denotes (columnAt? layout h) e x.1 x.2) es xs := by
  induction es generalizing xs with
  | nil => simp [formulas?, eq_comm]
  | cons e es ih =>
    rw [formulas?_cons, List.forall₂_cons_left_iff, Option.bind_eq_some_iff]
    simp only [Option.map_eq_some_iff, formula?_eq_some, ih]
    constructor
    · rintro ⟨x, hx, xs', hxs, rfl⟩
      exact ⟨x, xs', hx, hxs, rfl⟩
    · rintro ⟨x, xs', hx, hxs, rfl⟩
      exact ⟨x, hx, xs', hxs, rfl⟩

theorem length_formulas? (hx : formulas? layout h es = some xs) : xs.length = es.length :=
  (formulas?_eq_some.mp hx).length_eq.symm

theorem forall_formulas? {P : Formula × ColumnType → Prop}
    (hp : ∀ e ∈ es, ∀ x, Denotes (columnAt? layout h) e x.1 x.2 → P x)
    (hx : formulas? layout h es = some xs) : ∀ x ∈ xs, P x := by
  intro x hm
  obtain ⟨e, he, hd⟩ := Outcome.exists_of_forall₂ (formulas?_eq_some.mp hx).flip hm
  exact hp e he x hd

theorem map_formulas? {α : Type} {p : Formula × ColumnType → α} {q : Expr → α}
    (hp : ∀ e ∈ es, ∀ x, Denotes (columnAt? layout h) e x.1 x.2 → p x = q e)
    (hx : formulas? layout h es = some xs) : xs.map p = es.map q := by
  symm
  rw [← List.forall₂_eq_eq_eq, List.forall₂_map_left_iff, List.forall₂_map_right_iff]
  have hall := (List.forall₂_and_left _ _).mpr ⟨hp, formulas?_eq_some.mp hx⟩
  exact hall.imp fun e x h => (h.1 x h.2).symm

/-- Without aggregates formulas are rowwise, and those of expressions with columns differ by row. -/
theorem shape_formulas? (hp : ∀ e ∈ es, e.isPlain = true)
    (hx : formulas? layout h es = some xs) :
    (∀ x ∈ xs, x.1.isRowwise = true) ∧ xs.map (·.1.isScalar) = es.map (·.columns.isEmpty) :=
  ⟨forall_formulas? (fun e he _ hd => hd.isRowwise (hp e he)) hx,
    map_formulas? (fun e he _ hd => hd.isScalar_eq (hp e he)) hx⟩

end denoted

def numbered (start : Nat) (xs : List (Formula × ColumnType)) : Found :=
  (xs.zipIdx start).map fun (x, i) => (positionalName i, x)

theorem numbered_cons (start : Nat) (x : Formula × ColumnType)
    (xs : List (Formula × ColumnType)) :
    numbered start (x :: xs) = (positionalName start, x) :: numbered (start + 1) xs := by
  rw [numbered, List.zipIdx_cons]
  rfl

theorem columns_numbered (start : Nat) (xs : List (Formula × ColumnType)) :
    (numbered start xs).map (·.2) = xs := by
  rw [numbered, List.map_map]
  exact List.zipIdx_map_fst start xs

theorem formulas_numbered (start : Nat) (xs : List (Formula × ColumnType)) :
    (numbered start xs).map (·.2.1) = xs.map (·.1) := by
  conv_rhs => rw [← columns_numbered start xs, List.map_map]
  rfl

theorem names_numbered (start : Nat) (xs : List (Formula × ColumnType)) :
    (numbered start xs).map (·.1) = (List.range' start xs.length).map positionalName := by
  rw [numbered, List.map_map, ← List.zipIdx_map_snd start xs, List.map_map]
  rfl

/-- Terms of expressions are resolved to what the expressions denote, under positional names. -/
theorem resolve_positionalTerms (layout : Schema) (h : Header) (start : Nat) (es : List Expr) :
    (positionalTerms start layout es >>= resolveAll h).toOption =
      (formulas? layout h es).map (numbered start) := by
  induction es generalizing start with
  | nil => rfl
  | cons e es ih =>
    rw [positionalTerms_cons, formulas?_cons, formula?]
    have ih := ih (start + 1)
    cases term layout e with
    | error f => rfl
    | ok t =>
      rw [Outcome.ok_bind, Outcome.ok_bind]
      cases hts : positionalTerms (start + 1) layout es with
      | error f =>
        rw [hts] at ih
        have hn : formulas? layout h es = none := Option.map_eq_none_iff.mp ih.symm
        rw [hn]
        cases resolve h t <;> rfl
      | ok ts =>
        rw [hts, Outcome.ok_bind] at ih
        rw [Outcome.ok_bind, Outcome.ok_bind, resolveAll_cons]
        cases resolve h t with
        | error f => rfl
        | ok x =>
          rw [Outcome.ok_bind, Outcome.toOption_bind, ih, Outcome.toOption_ok, Option.bind_some,
            Option.map_map]
          cases formulas? layout h es with
          | none => rfl
          | some xs =>
            rw [Option.map_some, Option.map_some, Function.comp_apply, numbered_cons]
            rfl

/-- Either expressions come to formulas, by terms that are resolved to them, or the terms cannot be
made or not be resolved. -/
theorem formulas?_cases (layout : Schema) (h : Header) (start : Nat) (es : List Expr) :
    (∃ e, formulas? layout h es = none ∧ positionalTerms start layout es = .error e) ∨
      (∃ ts e, formulas? layout h es = none ∧ positionalTerms start layout es = .ok ts ∧
        resolveAll h ts = .error e) ∨
      ∃ xs ts, formulas? layout h es = some xs ∧ positionalTerms start layout es = .ok ts ∧
        resolveAll h ts = .ok (numbered start xs) := by
  have hx := resolve_positionalTerms layout h start es
  cases hts : positionalTerms start layout es with
  | error e =>
    rw [hts] at hx
    exact .inl ⟨e, Option.map_eq_none_iff.mp hx.symm, rfl⟩
  | ok ts =>
    rw [hts, Outcome.ok_bind] at hx
    cases hf : formulas? layout h es with
    | none =>
      rw [hf] at hx
      obtain ⟨e, he⟩ := Outcome.toOption_eq_none.mp hx
      exact .inr (.inl ⟨ts, e, rfl, rfl, he⟩)
    | some xs =>
      rw [hf] at hx
      exact .inr (.inr ⟨xs, ts, rfl, rfl, Outcome.toOption_eq_some.mp hx⟩)

theorem nodup_numbered (start : Nat) (xs : List (Formula × ColumnType)) :
    ((numbered start xs).map (·.1)).Nodup := by
  rw [names_numbered]
  exact (List.nodup_range' _).map positionalName_injective

theorem types_positionalHeader (types : List ColumnType) :
    (positionalHeader types).map (·.2) = types := by
  rw [positionalHeader, List.mapIdx_eq_zipIdx_map, List.map_map]
  exact List.zipIdx_map_fst 0 types

theorem exported_positionalHeader (types : List ColumnType) :
    (positionalHeader types).map (·.2.exported) = types.map ColumnType.exported := by
  conv_rhs => rw [← types_positionalHeader types, List.map_map]
  rfl

theorem header_numbered (xs : List (Formula × ColumnType)) :
    (numbered 0 xs).map (fun (name, _, t) => (name, t)) = positionalHeader (xs.map (·.2)) := by
  rw [positionalHeader, List.mapIdx_eq_zipIdx_map, List.zipIdx_map, numbered, List.map_map,
    List.map_map]
  rfl

end Engine

/-- What a plan comes to, if the types of all of it can be found. -/
def Plan.opened? (files : Files) (p : Plan) : Option Opened :=
  (relationOf p).toOption.bind fun (r, layout) => (r.header files).toOption.map fun h =>
    ⟨layout, h, fun predicates bound => (r.run files predicates bound).toOption⟩

def Opened.select (o : Opened) (xs : List (Formula × ColumnType)) (s : Schema) : Opened where
  layout := positionalLayout s
  header := positionalHeader (xs.map (·.2))
  run predicates bound :=
    let (down, held) := Relation.handed (xs.map (·.1)) predicates
    (o.run down (Relation.passed bound (xs.map (·.1)) held)).bind fun t =>
      ((xs.map (·.1)).mapM (Formula.eval none t.columns) >>= fun es =>
        Table.pick held bound (selected t.rows es)).toOption

def Opened.keep (o : Opened) (f : Formula) : Opened where
  layout := o.layout
  header := o.header
  run predicates bound :=
    if f.isRowwise then o.run (f.conjuncts ++ predicates) bound
    else (o.run [] none).bind fun t =>
      (t.satisfying [f] >>= Table.pick predicates bound).toOption

/-- The first rows of an input. -/
def Opened.take (o : Opened) (n : Nat) : Opened where
  layout := o.layout
  header := o.header
  run predicates bound :=
    if predicates.isEmpty then o.run [] (some (Relation.tighter bound n))
    else (o.run [] (some n)).bind fun t => (Table.pick predicates bound t).toOption

def Opened.group (o : Opened) (ks xs : List (Formula × ColumnType)) (s : Schema) : Opened where
  layout := positionalLayout s
  header := (numbered 0 ks).map (fun (name, _, t) => (name, t)) ++
    (numbered ks.length xs).map fun (name, f, t) => (name, groupedType f t)
  run predicates bound := (o.run [] none).bind fun t =>
    ((ks.map (·.1)).mapM (Formula.eval none t.columns) >>= fun es =>
      keysOf t.rows es >>= fun keys =>
      (xs.map (·.1)).mapM (Formula.eval (some (groupsOf t.rows es keys)) t.columns) >>=
      fun found =>
      Table.pick predicates bound (t.grouped ks.length es keys found)).toOption

/-- The number that the count of a limit stands for. -/
def countIn : Expr → Option Nat
  | .literal v _ => (wholeOf v >>= countOf).toOption
  | _ => none

section selecting
variable {files : Files} {r : Relation} {h : Header} {xs : List (Formula × ColumnType)}
    {c : Choice}

theorem header_select_numbered (hh : r.header files = .ok h)
    (hc : c.resolve h = .ok (numbered 0 xs)) :
    (Relation.select c r).header files = .ok (positionalHeader (xs.map (·.2))) := by
  rw [header_select hh, hc, Outcome.ok_bind, distinct_found (nodup_numbered 0 xs), header_numbered]

theorem run_select_numbered (hh : r.header files = .ok h) (hc : c.resolve h = .ok (numbered 0 xs))
    (predicates : List Formula) (bound : Option Nat) :
    (Relation.select c r).run files predicates bound =
      (r.run files (Relation.handed (xs.map (·.1)) predicates).1
        (Relation.passed bound (xs.map (·.1))
          (Relation.handed (xs.map (·.1)) predicates).2) >>= fun t =>
        (xs.map (·.1)).mapM (Formula.eval none t.columns) >>= fun es =>
          Table.pick (Relation.handed (xs.map (·.1)) predicates).2 bound
            (selected t.rows es)) := by
  rw [Relation.run, hh, Outcome.ok_bind, hc, Outcome.ok_bind]
  dsimp only
  rw [formulas_numbered]

theorem run_filter {u : Term} {f : Formula} {type : ColumnType} (hh : r.header files = .ok h)
    (hf : resolve h u = .ok (f, type)) (predicates : List Formula) (bound : Option Nat) :
    (Relation.filter u r).run files predicates bound =
      if f.isRowwise then r.run files (f.conjuncts ++ predicates) bound
      else r.run files [] none >>= fun t => t.satisfying [f] >>= Table.pick predicates bound := by
  rw [Relation.run, hh, Outcome.ok_bind, hf, Outcome.ok_bind]

theorem header_group {ks as : List (String × Term)} {ks' as' : List (Formula × ColumnType)}
    (hh : r.header files = .ok h) (hk : resolveAll h ks = .ok (numbered 0 ks'))
    (ha : resolveAll h as = .ok (numbered ks'.length as')) :
    (Relation.group ks as r).header files =
      .ok ((numbered 0 ks').map (fun (name, _, t) => (name, t)) ++
        (numbered ks'.length as').map fun (name, f, t) => (name, groupedType f t)) := by
  rw [Relation.header, hh, Outcome.ok_bind, hk, Outcome.ok_bind, ha, Outcome.ok_bind,
    Header.distinct, if_pos]
  have hn : ∀ (g : Formula → ColumnType → ColumnType) (start : Nat) xs,
      ((numbered start xs).map fun (name, f, t) => (name, g f t)).map (·.1) =
        (List.range' start xs.length).map positionalName := by
    intro g start xs
    rw [← names_numbered, List.map_map]
    rfl
  rw [List.map_append, hn groupedType, hn fun _ t => t, ← List.map_append]
  have hr : List.range' 0 ks'.length ++ List.range' ks'.length as'.length =
      List.range' 0 (ks'.length + as'.length) := by
    rw [← List.range'_append_1, Nat.zero_add]
  rw [hr]
  exact (List.nodup_range' _).map positionalName_injective

theorem run_group {ks as : List (String × Term)} {ks' as' : List (Formula × ColumnType)}
    {start : Nat} (hh : r.header files = .ok h) (hk : resolveAll h ks = .ok (numbered 0 ks'))
    (ha : resolveAll h as = .ok (numbered start as')) (predicates : List Formula)
    (bound : Option Nat) :
    (Relation.group ks as r).run files predicates bound =
      (r.run files [] none >>= fun t =>
        (ks'.map (·.1)).mapM (Formula.eval none t.columns) >>= fun es =>
        keysOf t.rows es >>= fun keys =>
        (as'.map (·.1)).mapM (Formula.eval (some (groupsOf t.rows es keys)) t.columns) >>=
          fun found =>
        Table.pick predicates bound (t.grouped ks'.length es keys found)) := by
  have hlen : (numbered 0 ks').length = ks'.length := by simp [numbered]
  rw [Relation.run, hh, Outcome.ok_bind, hk, Outcome.ok_bind, ha, Outcome.ok_bind, hlen,
    ← formulas_numbered 0 ks', ← formulas_numbered start as']
  simp only [List.mapM_map]
  rfl

end selecting

namespace Plan
variable {files : Files}

theorem opened?_of_error {p : Plan} {e : Fault} (hp : relationOf p = .error e) :
    opened? files p = none := by
  rw [opened?, hp]
  rfl

theorem opened?_of_ok {p : Plan} {r : Relation} {layout : Schema}
    (hp : relationOf p = .ok (r, layout)) :
    opened? files p = (r.header files).toOption.map fun h =>
      ⟨layout, h, fun predicates bound => (r.run files predicates bound).toOption⟩ := by
  rw [opened?, hp]
  rfl

theorem opened?_select {p q : Plan} {layout : Schema} {r : Relation} {es : List Expr} {s : Schema}
    (hr : relationOf p = .ok (r, layout))
    (hq : relationOf q = (positionalTerms 0 layout es >>= fun ts =>
      .ok (.select (.terms ts) r, positionalLayout s))) :
    opened? files q =
      (opened? files p).bind fun o => (formulas? o.layout o.header es).map fun xs =>
        o.select xs s := by
  rw [opened?_of_ok hr]
  cases hh : r.header files with
  | error e =>
    cases hts : positionalTerms 0 layout es with
    | error f =>
      rw [hts] at hq
      exact opened?_of_error hq
    | ok ts =>
      rw [hts] at hq
      rw [opened?_of_ok hq, Relation.header, hh]
      rfl
  | ok h =>
    rw [Outcome.toOption_ok, Option.map_some, Option.bind_some]
    dsimp only
    rcases formulas?_cases layout h 0 es with ⟨e, hx, hts⟩ | ⟨ts, e, hx, hts, hc⟩ | ⟨xs,
      ts, hx, hts, hc⟩
    · rw [hts] at hq
      rw [opened?_of_error hq, hx]
      rfl
    · rw [hts] at hq
      rw [opened?_of_ok hq, header_select hh, Choice.resolve, hc, hx]
      rfl
    · have hc : (Choice.terms ts).resolve h = .ok (numbered 0 xs) := hc
      rw [hts] at hq
      rw [opened?_of_ok hq, header_select_numbered hh hc, hx, Outcome.toOption_ok, Option.map_some,
        Option.map_some, Opened.select]
      congr 2
      funext predicates bound
      rw [run_select_numbered hh hc, Outcome.toOption_bind]

theorem opened?_projection (es : List Expr) (p : Plan) (s : Schema) :
    opened? files (.projection es p s) =
      (opened? files p).bind fun o => (formulas? o.layout o.header es).map fun xs =>
        o.select xs s := by
  cases hr : relationOf p with
  | error e =>
    have hq : relationOf (.projection es p s) = .error e := by
      rw [relationOf, hr]
      rfl
    rw [opened?_of_error hr, opened?_of_error hq]
    rfl
  | ok x =>
    refine opened?_select hr ?_
    rw [relationOf, hr]
    rfl

theorem opened?_selection (e : Expr) (p : Plan) :
    opened? files (.selection e p) =
      (opened? files p).bind fun o => (formula? o.layout o.header e).bind fun x =>
        if x.2 = .bool then some (o.keep x.1) else none := by
  have hq : relationOf (.selection e p) = (relationOf p >>= fun (r, layout) =>
      term layout e >>= fun u => .ok (.filter u r, layout)) := rfl
  cases hr : relationOf p with
  | error g =>
    rw [hr] at hq
    rw [opened?_of_error hr, opened?_of_error hq]
    rfl
  | ok x =>
    obtain ⟨r, layout⟩ := x
    rw [hr, Outcome.ok_bind] at hq
    rw [opened?_of_ok hr]
    cases hu : term layout e with
    | error g =>
      dsimp only at hq
      rw [hu] at hq
      rw [opened?_of_error hq]
      cases r.header files with
      | error f => rfl
      | ok h =>
        rw [Outcome.toOption_ok, Option.map_some, Option.bind_some, formula?, hu]
        rfl
    | ok u =>
      dsimp only at hq
      rw [hu, Outcome.ok_bind] at hq
      rw [opened?_of_ok hq, Relation.header]
      cases hh : r.header files with
      | error f => rfl
      | ok h =>
        rw [Outcome.ok_bind, Outcome.toOption_ok, Option.map_some, Option.bind_some, formula?, hu,
          Outcome.ok_bind]
        cases hf : resolve h u with
        | error g => rfl
        | ok x =>
          obtain ⟨f, type⟩ := x
          rw [Outcome.ok_bind, Outcome.toOption_ok, Option.bind_some]
          by_cases ht : type = .bool
          · rw [if_pos ht, if_pos ht, Outcome.toOption_ok, Option.map_some, Opened.keep]
            congr 2
            funext predicates bound
            rw [run_filter hh hf]
            split
            · rfl
            · rw [Outcome.toOption_bind]
          · rw [if_neg ht, if_neg ht]
            rfl

theorem opened?_limit (count : Expr) (p : Plan) (s : Schema) :
    opened? files (.limit count p s) =
      (opened? files p).bind fun o => (countIn count).map fun n => o.take n := by
  cases hr : relationOf p with
  | error e =>
    have hq : relationOf (.limit count p s) = .error e := by
      rw [relationOf, hr]
      rfl
    rw [opened?_of_error hr, opened?_of_error hq]
    rfl
  | ok x =>
    obtain ⟨r, layout⟩ := x
    have hq : (relationOf (.limit count p s)).toOption =
        (countIn count).map fun n => (Relation.take n r, layout) := by
      rw [relationOf, hr, Outcome.ok_bind]
      cases count with
      | literal v t =>
        rw [countIn]
        dsimp only
        cases wholeOf v >>= countOf <;> rfl
      | _ => rfl
    rw [opened?_of_ok hr, opened?, hq]
    cases countIn count with
    | none => cases r.header files <;> rfl
    | some n =>
      rw [Option.map_some, Option.bind_some]
      dsimp only
      rw [Relation.header]
      cases r.header files with
      | error e => rfl
      | ok h =>
        rw [Outcome.toOption_ok, Option.map_some, Option.map_some, Option.bind_some,
          Option.map_some, Opened.take]
        congr 2
        funext predicates bound
        rw [Relation.run]
        split
        · rfl
        · rw [Outcome.toOption_bind]

theorem opened?_group {p q : Plan} {layout : Schema} {r : Relation} {gs as : List Expr} {s : Schema}
    (hr : relationOf p = .ok (r, layout))
    (hq : relationOf q = (positionalTerms 0 layout gs >>= fun ks =>
      positionalTerms gs.length layout as >>= fun ts => .ok (.group ks ts r, positionalLayout s))) :
    opened? files q =
      (opened? files p).bind fun o => (formulas? o.layout o.header gs).bind fun ks =>
        (formulas? o.layout o.header as).map fun xs => o.group ks xs s := by
  rw [opened?_of_ok hr]
  cases hh : r.header files with
  | error e =>
    cases hk : positionalTerms 0 layout gs with
    | error f =>
      rw [hk] at hq
      exact opened?_of_error hq
    | ok ks =>
      cases ht : positionalTerms gs.length layout as with
      | error f =>
        rw [hk, ht] at hq
        exact opened?_of_error hq
      | ok ts =>
        rw [hk, ht] at hq
        rw [opened?_of_ok hq, Relation.header, hh]
        rfl
  | ok h =>
    rw [Outcome.toOption_ok, Option.map_some, Option.bind_some]
    dsimp only
    -- all terms are made before any is resolved
    rcases formulas?_cases layout h 0 gs with ⟨e, hx, hk⟩ | ⟨ks, e, hx, hk, hc⟩ | ⟨ks',
      ks, hx, hk, hc⟩
    · rw [hk] at hq
      rw [opened?_of_error hq, hx]
      rfl
    · rw [hk, Outcome.ok_bind] at hq
      rw [hx]
      cases ht : positionalTerms gs.length layout as with
      | error f =>
        rw [ht] at hq
        exact opened?_of_error hq
      | ok ts =>
        rw [ht] at hq
        rw [opened?_of_ok hq, Relation.header, hh, Outcome.ok_bind, hc]
        rfl
    · rw [hk, Outcome.ok_bind] at hq
      rw [hx, Option.bind_some]
      rcases formulas?_cases layout h gs.length as with
        ⟨e, hy, ht⟩ | ⟨ts, e, hy, ht, hd⟩ | ⟨ts', ts, hy, ht, hd⟩
      · rw [ht] at hq
        rw [opened?_of_error hq, hy]
        rfl
      · rw [ht] at hq
        rw [opened?_of_ok hq, hy, Relation.header, hh, Outcome.ok_bind, hc, Outcome.ok_bind, hd]
        rfl
      · rw [ht] at hq
        rw [← length_formulas? hx] at hd
        rw [opened?_of_ok hq, hy, header_group hh hc hd, Outcome.toOption_ok, Option.map_some,
          Option.map_some, Opened.group]
        congr 2
        funext predicates bound
        rw [run_group hh hc hd, Outcome.toOption_bind]

theorem opened?_aggregate (p : Plan) (gs as : List Expr) (s : Schema) :
    opened? files (.aggregate p gs as s) =
      (opened? files p).bind fun o => (formulas? o.layout o.header gs).bind fun ks =>
        (formulas? o.layout o.header as).map fun xs =>
          if gs = [] then o.select xs s else o.group ks xs s := by
  cases hr : relationOf p with
  | error e =>
    have hq : relationOf (.aggregate p gs as s) = .error e := by
      rw [relationOf, hr]
      rfl
    rw [opened?_of_error hr, opened?_of_error hq]
    rfl
  | ok x =>
    obtain ⟨r, layout⟩ := x
    by_cases hgs : gs = []
    · subst hgs
      have hq : relationOf (.aggregate p [] as s) = (positionalTerms 0 layout as >>= fun ts =>
          .ok (.select (.terms ts) r, positionalLayout s)) := by
        rw [relationOf, hr]
        rfl
      rw [opened?_select hr hq]
      rfl
    · have hq : relationOf (.aggregate p gs as s) = (positionalTerms 0 layout gs >>= fun ks =>
          positionalTerms gs.length layout as >>= fun ts =>
            .ok (.group ks ts r, positionalLayout s)) := by
        rw [relationOf, hr, Outcome.ok_bind]
        dsimp only
        cases hk : positionalTerms 0 layout gs with
        | error f => rfl
        | ok ks =>
          have hne : ks.isEmpty = false := by
            cases ks with
            | nil => exact absurd (nil_of_positionalTerms hk rfl) hgs
            | cons => rfl
          simp only [Outcome.ok_bind, hne, if_neg Bool.false_ne_true]
      simp only [opened?_group hr hq, if_neg hgs]

theorem opened?_memory {bs : List Batch} {s : Schema} (hne : bs ≠ [])
    (hs : ∀ b ∈ bs, b.schema = s) :
    opened? files (.memory bs s) = (storedHeader s).toOption.map fun h =>
      ⟨s, h, fun predicates bound =>
        (Table.pick predicates bound ⟨Batch.totalRows bs, storedColumns s bs⟩).toOption⟩ := by
  have hempty : bs.isEmpty = false := by
    cases bs with
    | nil => exact absurd rfl hne
    | cons => rfl
  have hany : bs.any (fun b => decide (b.schema ≠ s)) = false := by
    simpa using hs
  rw [opened?, relationOf, memoryTable, hempty, hany, if_neg Bool.false_ne_true,
    if_neg Bool.false_ne_true]
  cases storedHeader s <;> rfl

theorem opened?_of_relationOf {p : Plan} {r : Relation} {layout : Schema} {h : Header}
    (hr : relationOf p = .ok (r, layout)) (hh : r.header files = .ok h) :
    opened? files p =
      some ⟨layout, h, fun predicates bound => (r.run files predicates bound).toOption⟩ := by
  rw [opened?_of_ok hr, hh]
  rfl

theorem relationOf_of_opened? {p : Plan} {o : Opened} (h : opened? files p = some o) :
    ∃ r, relationOf p = .ok (r, o.layout) ∧ r.header files = .ok o.header ∧
      o.run = fun predicates bound => (r.run files predicates bound).toOption := by
  obtain ⟨⟨r, layout⟩, hr, h⟩ := Option.bind_eq_some_iff.mp h
  obtain ⟨header, hh, h⟩ := Outcome.map_toOption_eq_some.mp h
  cases h
  exact ⟨r, Outcome.toOption_eq_some.mp hr, hh, rfl⟩

theorem even_opened {p : Plan} {o : Opened} (h : opened? files p = some o)
    {predicates : List Formula}
    {bound : Option Nat} {t : Table} (ht : o.run predicates bound = some t) : t.Even := by
  obtain ⟨r, hr, -, hrun⟩ := relationOf_of_opened? h
  rw [hrun] at ht
  exact even_run (even_of_relationOf hr) (Outcome.toOption_eq_some.mp ht)

end Plan

namespace Opened
variable {o : Opened} {xs : List (Formula × ColumnType)} {s : Schema} {rows : List (List Deferred)}
  {width : Nat} {t : Table}

/-- Without predicates a selection gives all its rows, cut where it does not pass on the bound. -/
theorem run_select (o : Opened) (xs : List (Formula × ColumnType)) (s : Schema)
    (bound : Option Nat) :
    (o.select xs s).run [] bound =
      (o.run [] (Relation.passed bound (xs.map (·.1)) [])).bind fun t =>
        ((xs.map (·.1)).mapM (Formula.eval none t.columns)).toOption.map fun es =>
          (selected t.rows es).cut bound := by
  rw [select]
  dsimp only
  rw [handed_nil]
  dsimp only
  congr 1
  funext t
  cases (xs.map (·.1)).mapM (Formula.eval none t.columns) <;> rfl

theorem run_select_eq_some {t : Table} :
    (o.select xs s).run [] none = some t ↔ ∃ t₀ vs, o.run [] none = some t₀ ∧
      (xs.map (·.1)).mapM (Formula.eval none t₀.columns) = .ok vs ∧
      t = selected t₀.rows vs := by
  rw [run_select, passed_none, Option.bind_eq_some_iff]
  simp only [Option.map_eq_some_iff, Outcome.toOption_eq_some, Table.cut_none, eq_comm (a := t)]
  exact exists_congr fun t₀ => exists_and_left.symm

theorem exported_select (o : Opened) (xs : List (Formula × ColumnType)) (s : Schema) :
    (o.select xs s).header.map (·.2.exported) = xs.map (·.2.exported) := by
  rw [select, exported_positionalHeader, List.map_map]
  rfl

/-- A selection of which some formula differs by row takes its rows from the rows of its input. -/
theorem select_ofRows (hr : ∀ x ∈ xs, x.1.isRowwise = true)
    (hs : xs.any (!·.1.isScalar) = true) {bound : Option Nat}
    (ho : o.run [] (Relation.passed bound (xs.map (·.1)) []) = some (Table.ofRows width rows))
    (h : (o.select xs s).run [] bound = some t) :
    t = (Table.ofRows xs.length
      (rows.map fun row => xs.map fun x => x.1.atRow (rows.length == 1) row)).cut bound := by
  rw [run_select] at h
  obtain ⟨t₀, ht₀, h⟩ := Option.bind_eq_some_iff.mp h
  rw [ho] at ht₀
  cases ht₀
  obtain ⟨es, hes, rfl⟩ := Option.map_eq_some_iff.mp h
  rw [mapM_eval_ofRows (by simpa using hr)] at hes
  split at hes
  · cases hes
    rw [Table.ofRows, selected_onRows (by simpa [List.any_map, Function.comp_def] using hs),
      List.length_map]
    simp [List.map_map, Function.comp_def]
  · cases hes

theorem allTuples_select (hs : s ≠ []) (hr : ∀ x ∈ xs, x.1.isRowwise = true)
    (hv : xs.any (!·.1.isScalar) = true) (ho : o.run [] none = some (Table.ofRows width rows))
    (ht : (o.select xs s).run [] none = some t) {cells : List (List Cell)}
    (hc : t.columns.mapM settle = .ok cells) {size : Int} {bs : List Batch}
    (hb : Export.batches s (((o.select xs s).header.map (·.2.exported)).zip
      (cells.map fun c => [c])) size = .ok bs) :
    Batch.allTuples bs = rows.map fun row => Export.leaveRow s (xs.map (·.2.exported))
      (xs.map fun x => cellOf (x.1.atRow (rows.length == 1) row)) := by
  rw [← passed_none (xs.map (·.1)) []] at ho
  obtain rfl := select_ofRows hr hv ho ht
  have hw : ∀ row ∈ rows.map fun row => xs.map fun x => x.1.atRow (rows.length == 1) row,
      row.length = xs.length := by
    intro row hrow
    obtain ⟨row, -, rfl⟩ := List.mem_map.mp hrow
    exact List.length_map _
  rw [exported_select] at hb
  rw [(allTuples_ofRows hs hw hc hb).1, List.map_map]
  apply List.map_congr_left
  intro row _
  rw [Function.comp_apply, List.map_map]
  rfl

end Opened

theorem answer_eq_ok {files : Files} {p : Plan} {size : Int} {bs : List Batch} :
    answer files p size = .ok bs ↔ ∃ o s t cells, p.opened? files = some o ∧
    p.schema = .ok s ∧
      o.run [] none = some t ∧ t.columns.mapM settle = .ok cells ∧
      Export.batches s ((o.header.map (·.2.exported)).zip (cells.map fun c => [c])) size =
        .ok bs := by
  constructor
  · intro h
    obtain ⟨⟨r, layout⟩, hr, h⟩ := Outcome.bind_eq_ok.mp h
    obtain ⟨s, hs, h⟩ := Outcome.bind_eq_ok.mp h
    obtain ⟨⟨header, n, cells⟩, hc, h⟩ := Outcome.bind_eq_ok.mp h
    obtain ⟨header, hh, hc⟩ := Outcome.bind_eq_ok.mp hc
    obtain ⟨t, ht, hc⟩ := Outcome.bind_eq_ok.mp hc
    obtain ⟨cells, hcells, hc⟩ := Outcome.bind_eq_ok.mp hc
    cases hc
    exact ⟨_, s, t, cells, Plan.opened?_of_relationOf hr hh, hs, Outcome.toOption_eq_some.mpr ht,
      hcells, h⟩
  · rintro ⟨o, s, t, cells, ho, hs, ht, hcells, h⟩
    obtain ⟨r, hr, hh, hrun⟩ := Plan.relationOf_of_opened? ho
    rw [hrun] at ht
    rw [answer, hr, Outcome.ok_bind]
    dsimp only
    rw [hs, Outcome.ok_bind, execute, Relation.collect, hh, Outcome.ok_bind,
      Outcome.toOption_eq_some.mp ht, Outcome.ok_bind, hcells]
    exact h

theorem answer_of_opened {files : Files} {p q : Plan} (hs : p.schema = q.schema)
    (ho : ∀ o, p.opened? files = some o → ∃ o', q.opened? files = some o' ∧
      o.header.map (·.2.exported) = o'.header.map (·.2.exported) ∧
      ∀ t, o.run [] none = some t → o'.run [] none = some t)
    {size : Int} {bs : List Batch} (h : answer files p size = .ok bs) : answer files q size =
      .ok bs := by
  obtain ⟨o, s, t, cells, hop, hps, ht, hcells, hb⟩ := answer_eq_ok.mp h
  obtain ⟨o', hoq, htypes, hrun⟩ := ho o hop
  exact answer_eq_ok.mpr ⟨o', s, t, cells, hoq, hs.symm.trans hps, hrun t ht, hcells,
    htypes ▸ hb⟩

end LazyQuery
