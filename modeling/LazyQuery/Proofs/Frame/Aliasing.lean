import LazyQuery.Proofs.Expr.Derivation
import LazyQuery.Proofs.Frame.Likeness
import LazyQuery.Proofs.Frame.Renaming

/-! Aliases. An expression without its aliases has the same field but for the name and
comes to the same formula, so that calls without aliases build the same frame but for the
names of its columns. -/
namespace LazyQuery
open Engine

namespace Expr

mutual
/-- The expression with what it names in the place of every alias, at any depth. -/
def unaliased : Expr → Expr
  | .alias e _ => e.unaliased
  | .binary l op r => .binary l.unaliased op r.unaliased
  | .aggregate name args returns => .aggregate name (unaliasedAll args) returns
  | .not e => .not e.unaliased
  | .isNull e => .isNull e.unaliased
  | .isNotNull e => .isNotNull e.unaliased
  | .cast e t => .cast e.unaliased t
  | .column i => .column i
  | .literal v t => .literal v t
  | .wildcard => .wildcard
  | .bare => .bare

def unaliasedAll : List Expr → List Expr
  | [] => []
  | e :: es => e.unaliased :: unaliasedAll es
end

theorem unaliasedAll_eq_map (es : List Expr) : unaliasedAll es = es.map unaliased := by
  induction es with
  | nil => rfl
  | cons e es ih => rw [unaliasedAll, ih, List.map_cons]

mutual
theorem columns_unaliased (e : Expr) : e.unaliased.columns = e.columns := by
  cases e with
  | binary l op r => rw [unaliased, columns, columns, columns_unaliased l, columns_unaliased r]
  | aggregate name args t => rw [unaliased, columns, columns, columnsOfAll_unaliased args]
  | not e | isNull e | isNotNull e | cast e _ | «alias» e _ => exact columns_unaliased e
  | column | literal | wildcard | bare => rfl

theorem columnsOfAll_unaliased (es : List Expr) :
    columnsOfAll (unaliasedAll es) = columnsOfAll es := by
  cases es with
  | nil => rfl
  | cons e es =>
    rw [unaliasedAll, columnsOfAll, columnsOfAll, columns_unaliased e, columnsOfAll_unaliased es]
end

mutual
theorem hasWildcard_unaliased (e : Expr) : e.unaliased.hasWildcard = e.hasWildcard := by
  cases e with
  | binary l op r =>
    rw [unaliased, hasWildcard, hasWildcard, hasWildcard_unaliased l, hasWildcard_unaliased r]
  | aggregate name args t => rw [unaliased, hasWildcard, hasWildcard, anyWildcard_unaliased args]
  | not e | isNull e | isNotNull e | cast e _ | «alias» e _ => exact hasWildcard_unaliased e
  | column | literal | wildcard | bare => rfl

theorem anyWildcard_unaliased (es : List Expr) :
    anyWildcard (unaliasedAll es) = anyWildcard es := by
  cases es with
  | nil => rfl
  | cons e es =>
    rw [unaliasedAll, anyWildcard, anyWildcard, hasWildcard_unaliased e, anyWildcard_unaliased es]
end

section fields
open Outcome
variable {s s' : Schema} {n : Nat} {es : List Expr}

theorem checkReferences_unaliased (n : Nat) (es : List Expr) :
    checkReferences n (es.map unaliased) = checkReferences n es := by
  rw [checkReferences, checkReferences, outOfRange, outOfRange, ← columnsOfAll_eq_flatMap,
    ← columnsOfAll_eq_flatMap, ← anyWildcard_eq_any, ← anyWildcard_eq_any,
    ← unaliasedAll_eq_map, columnsOfAll_unaliased, anyWildcard_unaliased]

mutual
theorem derive_unaliased (h : s.nameless = s'.nameless) (e : Expr) :
    Follows (fun f f' => f.nameless = f'.nameless) (derive s e) (derive s' e.unaliased) := by
  match e with
  | .column i => exact derive_nameless h (.column i)
  | .literal v t => exact .ok rfl
  | .wildcard => exact .error
  | .bare => exact .error
  | .aggregate name args t => exact (deriveAll_unaliased h args).bind fun _ _ _ => .ok rfl
  | .binary l op r =>
    exact (derive_unaliased h l).bind fun _ _ hl => (derive_unaliased h r).bind fun _ _ hr =>
      binaryField_nameless hl hr op
  | .not e => exact (derive_unaliased h e).bind fun _ _ _ => .ok rfl
  | .isNull e => exact (derive_unaliased h e).bind fun _ _ _ => .ok rfl
  | .isNotNull e => exact (derive_unaliased h e).bind fun _ _ _ => .ok rfl
  | .cast e t =>
    exact (derive_unaliased h e).bind fun _ _ hf =>
      .ok (Field.nameless_eq.mpr ⟨rfl, (Field.nameless_eq.mp hf).2⟩)
  | .alias e name =>
    intro f hf
    obtain ⟨g, hg, hf⟩ := bind_eq_ok.mp hf
    cases hf
    exact derive_unaliased h e g hg

theorem deriveAll_unaliased (h : s.nameless = s'.nameless) (es : List Expr) :
    Follows (fun fs fs' => Schema.nameless fs = Schema.nameless fs') (deriveAll s es)
      (deriveAll s' (unaliasedAll es)) := by
  match es with
  | [] => exact .ok rfl
  | e :: es =>
    exact (derive_unaliased h e).bind fun _ _ hf => (deriveAll_unaliased h es).bind fun _ _ hfs =>
      .ok (congrArg₂ List.cons hf hfs)
end

theorem field_unaliased (h : s.nameless = s'.nameless) (e : Expr) :
    Follows (fun f f' => f.nameless = f'.nameless) (field s e) (field s' e.unaliased) := by
  rw [field, field, Schema.length_nameless h, ← List.map_singleton, checkReferences_unaliased]
  exact (Follows.refl _).bind fun _ _ _ => derive_unaliased h e

theorem fields_unaliased (h : s.nameless = s'.nameless) (es : List Expr) :
    Follows (fun fs fs' => Schema.nameless fs = Schema.nameless fs') (fields s es)
      (fields s' (es.map unaliased)) := by
  rw [fields, fields, Schema.length_nameless h, checkReferences_unaliased, ← unaliasedAll_eq_map]
  exact (Follows.refl _).bind fun _ _ _ => deriveAll_unaliased h es

theorem hasWildcard_of_fields {fs : Schema} (h : fields s es = .ok fs) :
    ∀ e ∈ es, e.hasWildcard = false := by
  obtain ⟨_, hc, -⟩ := bind_eq_ok.mp h
  exact fun e he => (checkReferences_eq_ok.mp hc e he).1

/-- Wildcards stand in the same places without aliases, unless one has a name. -/
theorem expandWildcards_unaliased (h : ∀ e ∈ expandWildcards n es, e.hasWildcard = false) :
    expandWildcards n (es.map unaliased) = (expandWildcards n es).map unaliased := by
  induction es with
  | nil => rfl
  | cons e es ih =>
    rw [expandWildcards_cons, List.forall_mem_append] at h
    rw [List.map_cons, expandWildcards_cons, expandWildcards_cons, List.map_append, ih h.2]
    congr 1
    by_cases he : e.isWildcard = true
    · obtain rfl := isWildcard_iff.mp he
      simp [unaliased, isWildcard, everyColumn, Function.comp_def]
    · rw [if_neg he, List.forall_mem_singleton, ← hasWildcard_unaliased] at h
      have hplain : e.unaliased.isWildcard = false := by
        cases hu : e.unaliased with
        | wildcard => rw [hu] at h; cases h.1
        | _ => rfl
      rw [if_neg he, hplain]
      rfl

end fields
end Expr

namespace Engine
variable {layout : Schema} {h : Header}

theorem denotes_unaliased {find : Int → Option (Nat × ColumnType)} (e : Expr) {f : Formula}
    {t : ColumnType} : Denotes find e.unaliased f t ↔ Denotes find e f t := by
  match e with
  | .column _ | .literal .. | .wildcard | .bare => exact Iff.rfl
  | .alias e name =>
    rw [Expr.unaliased, denotes_unaliased e]
    exact ⟨.alias, fun (.alias hd) => hd⟩
  | .binary l op r =>
    rw [Expr.unaliased]
    constructor
    · rintro (_ | _ | _ | ⟨hl, hr, ho, hm⟩)
      exact .binary ((denotes_unaliased l).mp hl) ((denotes_unaliased r).mp hr) ho hm
    · rintro (_ | _ | _ | ⟨hl, hr, ho, hm⟩)
      exact .binary ((denotes_unaliased l).mpr hl) ((denotes_unaliased r).mpr hr) ho hm
  | .aggregate name [] d => exact Iff.rfl
  | .aggregate name (e :: es) d =>
    rw [Expr.unaliased, Expr.unaliasedAll]
    constructor
    · rintro (_ | _ | ⟨hr, hd, hc, ht, hcast⟩)
      exact .aggregate hr ((denotes_unaliased e).mp hd) hc ht hcast
    · rintro (_ | _ | ⟨hr, hd, hc, ht, hcast⟩)
      exact .aggregate hr ((denotes_unaliased e).mpr hd) hc ht hcast
  | .not e =>
    rw [Expr.unaliased]
    exact ⟨fun (.not hd hs) => .not ((denotes_unaliased e).mp hd) hs,
      fun (.not hd hs) => .not ((denotes_unaliased e).mpr hd) hs⟩
  | .isNull e =>
    rw [Expr.unaliased]
    exact ⟨fun (.isNull hd) => .isNull ((denotes_unaliased e).mp hd),
      fun (.isNull hd) => .isNull ((denotes_unaliased e).mpr hd)⟩
  | .isNotNull e =>
    rw [Expr.unaliased]
    exact ⟨fun (.isNotNull hd) => .isNotNull ((denotes_unaliased e).mp hd),
      fun (.isNotNull hd) => .isNotNull ((denotes_unaliased e).mpr hd)⟩
  | .cast e d =>
    rw [Expr.unaliased]
    exact ⟨fun (.cast hd hc hcast) => .cast ((denotes_unaliased e).mp hd) hc hcast,
      fun (.cast hd hc hcast) => .cast ((denotes_unaliased e).mpr hd) hc hcast⟩

theorem formula?_unaliased (layout : Schema) (h : Header) (e : Expr) :
    formula? layout h e.unaliased = formula? layout h e := by
  apply Option.ext
  intro x
  rw [formula?_eq_some, formula?_eq_some, denotes_unaliased]

theorem formulas?_unaliased (layout : Schema) (h : Header) (es : List Expr) :
    formulas? layout h (es.map Expr.unaliased) = formulas? layout h es := by
  induction es with
  | nil => rfl
  | cons e es ih => rw [List.map_cons, formulas?_cons, formulas?_cons, formula?_unaliased, ih]

end Engine

namespace Frame
open Outcome
variable {files : Files} {settings : Assignments} {f g : Frame}

/-- The call without the aliases in its expressions. -/
def Call.unaliased : Call → Call
  | .project es => .project (es.map Expr.unaliased)
  | .filter e => .filter e.unaliased
  | .limit d => .limit d
  | .aggregate gs as => .aggregate (gs.map Expr.unaliased) (as.map Expr.unaliased)

/-- Frames of one context that come to the same, with the same columns but for their names. -/
structure Agrees (files : Files) (f g : Frame) : Prop where
  context : f.context = g.context
  schema : ∃ s s', f.schema = .ok s ∧ g.schema = .ok s' ∧ s.nameless = s'.nameless
  opened : f.plan.opened? files = g.plan.opened? files

namespace Agrees

theorem refl {s : Schema} (hs : f.schema = .ok s) : f.Agrees files f :=
    ⟨rfl, ⟨s, s, hs, hs, rfl⟩, rfl⟩

theorem symm (h : f.Agrees files g) : g.Agrees files f := by
  obtain ⟨s, s', hs, hs', hn⟩ := h.schema
  exact ⟨h.context.symm, ⟨s', s, hs', hs, hn.symm⟩, h.opened.symm⟩

theorem project (h : f.Agrees files g) (es : List Expr) :
    Follows (Agrees files) (f.project es) (g.project (es.map Expr.unaliased)) := by
  obtain ⟨s, s', hs, hs', hn⟩ := h.schema
  intro f' hf'
  obtain ⟨fs, hfs, hctx, hplan⟩ := project_ok hs hf'
  obtain ⟨fs', hfs', hfn⟩ := Expr.fields_unaliased hn _ fs hfs
  have hexpand := Expr.expandWildcards_unaliased (Expr.hasWildcard_of_fields hfs)
  refine ⟨⟨.projection ((Expr.expandWildcards s.length es).map Expr.unaliased) g.plan fs',
    g.context⟩,
    ?_, hctx.trans h.context, ⟨fs, fs', by rw [Frame.schema, hplan]; rfl, rfl, hfn⟩, ?_⟩
  · rw [Frame.project, hs', ok_bind, ← Schema.length_nameless hn]
    dsimp only
    rw [hexpand, hfs']
    rfl
  · rw [hplan, Plan.opened?_projection, Plan.opened?_projection, h.opened]
    simp only [formulas?_unaliased, Opened.select_congr rfl hfn]

theorem filter (h : f.Agrees files g) (e : Expr) :
    Follows (Agrees files) (f.filter e) (g.filter e.unaliased) := by
  obtain ⟨s, s', hs, hs', hn⟩ := h.schema
  intro f' hf'
  obtain ⟨field, hfield, htype, hctx, hplan⟩ := filter_ok hs hf'
  obtain ⟨field', hfield', hfn⟩ := Expr.field_unaliased hn e field hfield
  rw [(Field.nameless_eq.mp hfn).1] at htype
  refine ⟨⟨.selection e.unaliased g.plan, g.context⟩, ?_, hctx.trans h.context,
    ⟨s, s', by rw [Frame.schema, hplan]; exact hs, hs', hn⟩, ?_⟩
  · rw [Frame.filter, hs', ok_bind, hfield', ok_bind, if_pos htype]
  · rw [hplan, Plan.opened?_selection, Plan.opened?_selection, h.opened]
    simp only [formula?_unaliased]

theorem limit (h : f.Agrees files g) (d : Datum) : Follows (Agrees files) (f.limit d)
    (g.limit d) := by
  obtain ⟨s, s', hs, hs', hn⟩ := h.schema
  intro f' hf'
  obtain ⟨n, rfl⟩ := count_of_limit hf'
  obtain ⟨s₁, hs₁, hctx, hplan⟩ := limit_ok hf'
  obtain rfl : s = s₁ := Except.ok.inj (hs.symm.trans hs₁)
  refine ⟨⟨.limit (.literal (.int n) .uint64) g.plan s', g.context⟩, ?_, hctx.trans h.context,
    ⟨s, s', by rw [Frame.schema, hplan]; rfl, rfl, hn⟩, ?_⟩
  · unfold Frame.limit
    rw [hs']
    rfl
  · rw [hplan, Plan.opened?_limit, Plan.opened?_limit, h.opened]

theorem aggregate (h : f.Agrees files g) (gs as : List Expr) :
    Follows (Agrees files) (f.aggregate gs as)
      (g.aggregate (gs.map Expr.unaliased) (as.map Expr.unaliased)) := by
  obtain ⟨s, s', hs, hs', hn⟩ := h.schema
  intro f' hf'
  obtain ⟨fs, hfs, hctx, hplan⟩ := aggregate_ok hs hf'
  obtain ⟨fs', hfs', hfn⟩ := Expr.fields_unaliased hn _ fs hfs
  rw [List.map_append] at hfs'
  refine ⟨⟨.aggregate g.plan (gs.map Expr.unaliased) (as.map Expr.unaliased) fs', g.context⟩,
    ?_, hctx.trans h.context, ⟨fs, fs', by rw [Frame.schema, hplan]; rfl, rfl, hfn⟩, ?_⟩
  · rw [Frame.aggregate, hs', ok_bind, hfs']
    rfl
  · rw [hplan, Plan.opened?_aggregate, Plan.opened?_aggregate, h.opened]
    simp only [formulas?_unaliased, Opened.select_congr rfl hfn, Opened.group_congr rfl hfn,
      List.map_eq_nil_iff]

/-- Frames that agree still agree after a call and the same call without its aliases. -/
theorem apply (h : f.Agrees files g) (call : Call) :
    Follows (Agrees files) (f.apply call) (g.apply call.unaliased) := by
  cases call with
  | project es => exact h.project es
  | filter e => exact h.filter e
  | limit d => exact h.limit d
  | aggregate gs as => exact h.aggregate gs as

theorem applyAll (h : f.Agrees files g) (calls : List Call) :
    Follows (Agrees files) (f.applyAll calls) (g.applyAll (calls.map Call.unaliased)) := by
  induction calls generalizing f g with
  | nil => exact .ok h
  | cons call calls ih => exact (h.apply call).bind fun _ _ h => ih h

theorem follows_collect (h : f.Agrees files g) (hf : f.context = .here settings .standard) :
    Follows (fun bs cs => bs.map Batch.nameless = cs.map Batch.nameless) (f.collect files).outcome
      (g.collect files).outcome := by
  obtain ⟨s, s', hs, hs', hn⟩ := h.schema
  intro bs hb
  obtain ⟨size, hsize, hb⟩ := (collect_eq_ok hf).mp hb
  obtain ⟨o, _, t, cells, ho, hs₁, ht, hcells, hb⟩ := answer_eq_ok.mp hb
  obtain rfl : s = _ := Except.ok.inj (hs.symm.trans hs₁)
  obtain ⟨cs, hcs, hbc⟩ := Export.batches_nameless hn _ size bs hb
  refine ⟨cs, (collect_eq_ok (h.context.symm.trans hf)).mpr ⟨size, hsize,
    answer_eq_ok.mpr ?_⟩, hbc⟩
  exact ⟨o, s', t, cells, h.opened ▸ ho, hs', ht, hcells, hcs⟩

/-- Frames that agree give the same batches but for the names in them, or both give none. -/
theorem collect (h : f.Agrees files g) (hf : f.context = .here settings .standard) :
    (f.collect files).outcome.toOption.map (List.map Batch.nameless) =
      (g.collect files).outcome.toOption.map (List.map Batch.nameless) :=
  (h.follows_collect hf).map_toOption_eq (h.symm.follows_collect (h.context.symm.trans hf))

end Agrees

theorem context_schema_of_source {c : Context} {source : Source} (h : source.frame c = .ok f) :
    f.context = c ∧ ∃ s, f.schema = .ok s := by
  cases source with
  | empty s =>
    cases h
    exact ⟨rfl, s, rfl⟩
  | batches bs =>
    obtain ⟨-, rfl⟩ := ofBatches_eq_ok.mp h
    exact ⟨rfl, _, rfl⟩
  | file path format s o =>
    obtain ⟨_, -, h⟩ := bind_eq_ok.mp h
    split at h
    · cases h
      exact ⟨rfl, _, rfl⟩
    · cases h

/-- Aliases are nothing but names. Calls on a source make the same frame with their aliases and
without them, at any depth of any expression, but for the names of its columns: it has the same
types and nullability, and the same batches are collected of it, or none in both cases. -/
theorem collect_unaliased (files : Files) {source : Source} {calls : List Call}
    (hf : source.after (.here settings .standard) calls = .ok f) :
    ∃ g s s', source.after (.here settings .standard) (calls.map Call.unaliased) = .ok g ∧
      f.schema = .ok s ∧ g.schema = .ok s' ∧ s.nameless = s'.nameless ∧
      (f.collect files).outcome.toOption.map (List.map Batch.nameless) =
        (g.collect files).outcome.toOption.map (List.map Batch.nameless) := by
  obtain ⟨f₀, hf₀, hf⟩ := bind_eq_ok.mp hf
  obtain ⟨hctx, s₀, hs₀⟩ := context_schema_of_source hf₀
  obtain ⟨g, hg, h⟩ := (Agrees.refl hs₀).applyAll calls f hf
  obtain ⟨s, s', hs, hs', hn⟩ := h.schema
  exact ⟨g, s, s', bind_eq_ok.mpr ⟨f₀, hf₀, hg⟩, hs, hs', hn,
    h.collect ((context_applyAll hf).trans hctx)⟩

/-- Aliases in operands, arguments, keys and predicates, some of them with the names
of other columns. -/
def aliasedCalls : List Call :=
  [.project [.alias (.binary (.alias (.column 0) "k") "+" (.alias (.literal (.int 1) .int64) "x"))
    "v",
      .wildcard, .alias (.alias (.column 1) "k") "v"],
    .filter (.binary (.alias (.column 0) "_1") ">" (.literal (.int 2) .int64)),
    .aggregate [.alias (.column 3) "_0"] [.alias (.sum (.alias (.column 0) "_1")) "_0"],
    .limit (.int 2)]

def pairs : List Batch :=
  [⟨[⟨"k", .int64, true⟩, ⟨"v", .int64, true⟩], 4,
    [[.int 1, .int 2, .int 3, .null], [.int 7, .int 7, .int 8, .int 9]], rfl, by decide⟩]

theorem collect_unaliased_pairs :
    ∃ f g bs cs, (Source.batches pairs).after (.here [] .standard) aliasedCalls = .ok f ∧
      (Source.batches pairs).after (.here [] .standard) (aliasedCalls.map Call.unaliased) =
        .ok g ∧
      f.schema ≠ g.schema ∧ (f.collect []).outcome = .ok bs ∧
      (g.collect []).outcome = .ok cs ∧
      Batch.totalRows bs = 2 ∧ bs.map Batch.nameless = cs.map Batch.nameless := by
  have hdiffer : ((Source.batches pairs).after (.here [] .standard) aliasedCalls >>=
      Frame.schema).toOption ≠
      ((Source.batches pairs).after (.here [] .standard) (aliasedCalls.map Call.unaliased) >>=
        Frame.schema).toOption := by decide +kernel
  have hb : ((Source.batches pairs).after (.here [] .standard) aliasedCalls >>= fun f =>
      (f.collect []).outcome).toOption.map Batch.totalRows = some 2 := by decide +kernel
  obtain ⟨bs, hb, hrows⟩ := map_toOption_eq_some.mp hb
  obtain ⟨f, hf, hb⟩ := bind_eq_ok.mp hb
  obtain ⟨g, s, s', hg, hs, hs', -, hcollect⟩ := collect_unaliased [] hf
  rw [hf, hg, ok_bind, ok_bind] at hdiffer
  rw [hb, toOption_ok, Option.map_some] at hcollect
  obtain ⟨cs, hc, hbc⟩ := Option.map_eq_some_iff.mp hcollect.symm
  exact ⟨f, g, bs, cs, hf, hg, fun h => hdiffer (congrArg _ h), hb, toOption_eq_some.mp hc, hrows,
    hbc.symm⟩

end Frame
end LazyQuery
