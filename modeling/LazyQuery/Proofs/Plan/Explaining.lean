import LazyQuery.Plan.Text
import LazyQuery.Proofs.Datum.Feeds
import LazyQuery.Proofs.Frame.Building

/-! Explained plans line by line. There is one line for each node, and one more for each line
feed in what a node shows as it is: paths, names of columns and aggregates, operators, and
the names in types. -/
namespace LazyQuery
open Text

namespace Expr

mutual
def verbatim : Expr → List String
  | .column _ | .wildcard | .bare => []
  | .literal v t => t.verbatim ++ v.verbatim
  | .aggregate name args _ => name :: allVerbatim args
  | .binary l op r => l.verbatim ++ op :: r.verbatim
  | .not e | .isNull e | .isNotNull e => e.verbatim
  | .cast e t => e.verbatim ++ t.verbatim
  | .alias e name => e.verbatim ++ [name]

def allVerbatim : List Expr → List String
  | [] => []
  | e :: es => e.verbatim ++ allVerbatim es
end

mutual
theorem text_of_sound {n : Nat} {e : Expr} (h : e.Sound n) :
    ∃ t, e.text = .ok t ∧ feeds t = feedsIn e.verbatim := by
  match e with
  | .column i => exact ⟨_, rfl, by simp [verbatim]⟩
  | .literal v t =>
    refine ⟨_, rfl, ?_⟩
    simp [verbatim, t.feeds_text, Datum.exact, v.feeds_shown]
  | .aggregate name args t =>
    have hargs : AllSound n args := h
    obtain ⟨ts, hts, hf⟩ := texts_of_allSound hargs
    exact ⟨_, by rw [text, hts]; rfl, by simp [verbatim, hf]⟩
  | .binary l op r =>
    obtain ⟨hl, -, hr⟩ := h
    obtain ⟨left, hleft, hfl⟩ := text_of_sound hl
    obtain ⟨right, hright, hfr⟩ := text_of_sound hr
    exact ⟨_, by rw [text, hleft, hright]; rfl, by simp [verbatim, hfl, hfr]; omega⟩
  | .not e | .isNull e | .isNotNull e =>
    obtain ⟨t, ht, hf⟩ := text_of_sound (e := e) h
    exact ⟨_, by rw [text, ht]; rfl, by simp [verbatim, hf]⟩
  | .cast e d =>
    obtain ⟨t, ht, hf⟩ := text_of_sound (e := e) h
    exact ⟨_, by rw [text, ht]; rfl, by simp [verbatim, hf, d.feeds_text]⟩
  | .alias e name =>
    obtain ⟨t, ht, hf⟩ := text_of_sound (e := e) h
    exact ⟨_, by rw [text, ht]; rfl, by simp [verbatim, hf]⟩
  | .wildcard | .bare => exact h.elim

theorem texts_of_allSound {n : Nat} {es : List Expr} (h : AllSound n es) :
    ∃ ts, texts es = .ok ts ∧ feedsIn ts = feedsIn (allVerbatim es) := by
  match es with
  | [] => exact ⟨[], rfl, rfl⟩
  | e :: es =>
    obtain ⟨t, ht, hf⟩ := text_of_sound h.1
    obtain ⟨ts, hts, hfs⟩ := texts_of_allSound h.2
    exact ⟨t :: ts, by rw [texts, ht, hts]; rfl, by simp [allVerbatim, hf, hfs]⟩
end

end Expr

namespace Plan

def verbatim : Plan → List String
  | .file scan => [scan.path, scan.format]
  | .projection es _ _ => Expr.allVerbatim es
  | .selection e _ => e.verbatim
  | .aggregate _ groups aggregates _ => Expr.allVerbatim groups ++ Expr.allVerbatim aggregates
  | .empty _ | .memory .. | .limit .. | .bare => []

/-- What all nodes show as it is. -/
def shownVerbatim (p : Plan) : List String := p.nodes.flatMap verbatim

theorem feeds_kind (p : Plan) : feeds p.kind = 0 := by
  cases p <;> simp [kind]

theorem feeds_positionsText (ps : List Int) : feeds (positionsText ps) = 0 := by
  have hnumbers : feedsIn (ps.map toString) = 0 := by
    rw [feedsIn_eq_zero]
    intro x hx
    obtain ⟨i, -, rfl⟩ := List.mem_map.mp hx
    exact feeds_eq_zero.mp (feeds_intRepr i)
  simp [positionsText, hnumbers]

theorem commaSeparated_of_sound {n : Nat} {es : List Expr} (h : ∀ e ∈ es, e.Sound n) :
    ∃ t, commaSeparated es = .ok t ∧ feeds t = feedsIn (Expr.allVerbatim es) := by
  obtain ⟨ts, hts, hf⟩ := Expr.texts_of_allSound ((Expr.allSound_iff n es).mpr h)
  exact ⟨", ".intercalate ts, by rw [commaSeparated, hts]; rfl, by rw [feeds_commas, hf]⟩

theorem ok_append {s kind rest more : String} (h : s = kind ++ rest) :
    (Except.ok (s ++ more) : Outcome String) = .ok (kind ++ (rest ++ more)) := by
  rw [h, String.append_assoc]

theorem describe_of_wellFormed {p : Plan} (h : p.NodeWellFormed) :
    ∃ rest, p.describe = .ok (p.kind ++ rest) ∧ feeds rest = feedsIn p.verbatim := by
  cases p with
  | empty s => exact ⟨"", rfl, rfl⟩
  | memory bs s => exact ⟨": batches=" ++ toString bs.length, ok_append rfl, by simp [verbatim]⟩
  | file scan =>
    have hpositions : feeds ((scan.projection.map positionsText).getD "None") = 0 := by
      cases scan.projection with
      | none => simp
      | some ps => exact feeds_positionsText ps
    refine ⟨": path=" ++ (scan.path ++ (", file_type=" ++ (scan.format ++ (", projection=" ++
      (scan.projection.map positionsText).getD "None")))), ?_, by simp [verbatim, hpositions]⟩
    simp only [describe, String.append_assoc]
    exact ok_append rfl
  | projection es p s =>
    obtain ⟨t, -, hes, -⟩ := h
    obtain ⟨items, hitems, hf⟩ := commaSeparated_of_sound hes
    refine ⟨": " ++ items, ?_, by simp [verbatim, hf]⟩
    rw [describe, hitems, Outcome.ok_bind]
    exact ok_append rfl
  | selection e p =>
    obtain ⟨t, f, -, he, -⟩ := h
    obtain ⟨predicate, hpredicate, hf⟩ := Expr.text_of_sound he
    refine ⟨": " ++ predicate, ?_, by simp [verbatim, hf]⟩
    rw [describe, hpredicate, Outcome.ok_bind]
    exact ok_append rfl
  | limit count p s =>
    obtain ⟨-, n, rfl⟩ := h
    exact ⟨": " ++ toString (n : Int), ok_append rfl, by simp [verbatim]⟩
  | aggregate p gs as s =>
    obtain ⟨t, -, hes, -⟩ := h
    obtain ⟨groups, hgroups, hfg⟩ :=
      commaSeparated_of_sound fun e he => hes e (List.mem_append_left _ he)
    obtain ⟨aggregates, haggregates, hfa⟩ :=
      commaSeparated_of_sound fun e he => hes e (List.mem_append_right _ he)
    refine ⟨": groupBy=[" ++ (groups ++ ("], aggr=[" ++ (aggregates ++ "]"))), ?_,
      by simp [verbatim, hfg, hfa]⟩
    rw [describe, hgroups, Outcome.ok_bind, haggregates, Outcome.ok_bind]
    simp only [String.append_assoc]
    exact ok_append rfl
  | bare => exact h.elim

/-- The explained tree puts the nodes one below another, each further in than the one before and
each by its kind and what follows. -/
structure IsExplained (p : Plan) (items : List String) : Prop where
  nodes : List.Forall₂ (fun (q : Plan) item =>
    ∃ rest, item = q.kind ++ rest ∧ feeds rest = feedsIn q.verbatim) p.nodes items
  tree : ∀ i, p.explain i = .ok ("\n".intercalate (staircase i items))

namespace IsExplained
variable {p : Plan} {items : List String} (h : p.IsExplained items)
include h

theorem ne_nil : items ≠ [] := by
  rintro rfl
  have hnone := h.nodes.length_eq
  cases p <;> cases hnone

theorem feedsIn_eq : feedsIn items = feedsIn p.shownVerbatim := by
  have hall := h.nodes
  clear h
  rw [shownVerbatim]
  generalize p.nodes = nodes at hall
  induction hall with
  | nil => rfl
  | cons hx _ ih =>
    obtain ⟨rest, rfl, hrest⟩ := hx
    rw [feedsIn_cons, List.flatMap_cons, feedsIn_append, ih, feeds_append, feeds_kind, Nat.zero_add,
      hrest]

end IsExplained

theorem explain_source {p : Plan} (hp : p.input? = none) (i : Nat) :
    p.nodes = [p] ∧ p.explain i = (p.describe >>= fun line => .ok (indented i line)) := by
  cases p <;> first | exact ⟨rfl, rfl⟩ | cases hp

theorem explain_input {p q : Plan} (hq : p.input? = some q) (i : Nat) :
    p.nodes = p :: q.nodes ∧ p.explain i = (p.describe >>= fun line =>
      q.explain (i + 1) >>= fun rest => .ok (indented i line ++ "\n" ++ rest)) := by
  cases p <;> cases hq <;> exact ⟨rfl, rfl⟩

theorem isExplained_source {p : Plan} (h : p.NodeWellFormed) (hp : p.input? = none) :
    ∃ items, p.IsExplained items := by
  obtain ⟨rest, hline, hf⟩ := describe_of_wellFormed h
  refine ⟨[p.kind ++ rest], ?_, fun i => ?_⟩
  · rw [(explain_source hp 0).1]
    exact .cons ⟨rest, rfl, hf⟩ .nil
  · rw [(explain_source hp i).2, hline, Outcome.ok_bind]
    simp [staircase]

theorem isExplained_input {p q : Plan} (h : p.NodeWellFormed) (hq : p.input? = some q)
    {items : List String} (hi : q.IsExplained items) : ∃ items, p.IsExplained items := by
  obtain ⟨rest, hline, hf⟩ := describe_of_wellFormed h
  refine ⟨(p.kind ++ rest) :: items, ?_, fun i => ?_⟩
  · rw [(explain_input hq 0).1]
    exact .cons ⟨rest, rfl, hf⟩ hi.nodes
  · obtain ⟨item, items, rfl⟩ := List.exists_cons_of_ne_nil hi.ne_nil
    rw [(explain_input hq i).2, hline, Outcome.ok_bind, hi.tree (i + 1), Outcome.ok_bind,
      staircase_cons i, staircase_cons (i + 1), intercalate_cons_cons]

theorem exists_isExplained {p : Plan} (h : p.WellFormed) : ∃ items, p.IsExplained items := by
  induction p with
  | empty | memory | file => exact isExplained_source (wellFormed_self h) rfl
  | projection _ q _ ih | selection _ q ih | limit _ q _ ih | aggregate q _ _ _ ih =>
    obtain ⟨items, hi⟩ := ih (wellFormed_input h rfl)
    exact isExplained_input (wellFormed_self h) rfl hi
  | bare => exact (wellFormed_self h).elim

end Plan

namespace Frame
variable {c : Context} {f : Frame}

/-- Where all values can be written, the explained plan of a frame has a line for each node, and one
more for each line feed in what the nodes show as it is. If there is none, the line of each node
begins with two spaces for each step that it is further in and goes on with its kind; and that all
of it can be moved to the right line by line says just that. -/
theorem explain_lines (hf : Built c f)
    (_hvalues : ∀ q ∈ f.plan.nodes, ∀ v ∈ q.values, v.Writable) (i : Nat) :
    ∃ t, f.plan.explain i = .ok t ∧
      (lines t).length = f.plan.nodes.length + feedsIn f.plan.shownVerbatim ∧
      ((∀ x ∈ f.plan.shownVerbatim, '\n' ∉ x.toList) →
        ∀ k q, f.plan.nodes[k]? = some q →
          ∃ rest, (lines t)[k]? = some (indented (i + k) (q.kind ++ rest))) ∧
      ∀ d, f.plan.explain (i + d) = .ok ("\n".intercalate ((lines t).map (indented d))) ↔
        d = 0 ∨ ∀ x ∈ f.plan.shownVerbatim, '\n' ∉ x.toList := by
  obtain ⟨items, hi⟩ := Plan.exists_isExplained (wellFormed_of_built hf)
  have hne : staircase i items ≠ [] := by
    rw [Ne, ← List.length_eq_zero_iff, length_staircase, List.length_eq_zero_iff]
    exact hi.ne_nil
  have hfeeds : feedsIn (staircase i items) = feedsIn f.plan.shownVerbatim := by
    rw [feedsIn_staircase, hi.feedsIn_eq]
  refine ⟨_, hi.tree i, ?_, fun hnone k q hq => ?_, fun d => ?_⟩
  · rw [length_lines_intercalate hne, hfeeds, length_staircase, hi.nodes.length_eq]
  · have hlines : lines ("\n".intercalate (staircase i items)) = staircase i items :=
      lines_intercalate hne (hfeeds.trans (feedsIn_eq_zero.mpr hnone))
    obtain ⟨hk, rfl⟩ := List.getElem?_eq_some_iff.mp hq
    have hk' : k < items.length := hi.nodes.length_eq ▸ hk
    obtain ⟨rest, hitem, -⟩ := (List.forall₂_iff_get.mp hi.nodes).2 k hk hk'
    refine ⟨rest, ?_⟩
    rw [hlines, staircase, List.getElem?_mapIdx, List.getElem?_eq_getElem hk', Option.map_some]
    exact congrArg (some <| indented (i + k) ·) hitem
  · rw [hi.tree (i + d), Except.ok.injEq, ← map_indented_staircase,
      intercalate_indented_eq_iff hne, hfeeds, feedsIn_eq_zero]

/-- The only column of no rows, under another name. -/
def renamedColumn (name : String) : Frame where
  plan := .projection [.alias (.column 0) name] (.empty [⟨"n", .int64, true⟩])
    [⟨name, .int64, true⟩]
  context := .here [] .standard

/-- A name with a line feed takes two lines, so that two nodes take three, and moving the text to
the right is not explaining the plan further to the right. A name without takes one line. -/
theorem explain_lines_renamedColumn :
    (∃ t, (renamedColumn "a\nb").plan.explain 0 = .ok t ∧
      (renamedColumn "a\nb").plan.nodes.length = 2 ∧
      (lines t).length = 3 ∧
      (renamedColumn "a\nb").plan.explain 1 ≠
        .ok ("\n".intercalate ((lines t).map (indented 1)))) ∧
    ∃ t, (renamedColumn "ab").plan.explain 0 = .ok t ∧ (lines t).length = 2 ∧
      (∃ rest, (lines t)[1]? = some (indented 1 ("EmptyRelation" ++ rest))) ∧
      (renamedColumn "ab").plan.explain 1 =
        .ok ("\n".intercalate ((lines t).map (indented 1))) := by
  have hbuilt (name : String) : Built (.here [] .standard) (renamedColumn name) :=
    ⟨.empty [⟨"n", .int64, true⟩], [.project [.alias (.column 0) name]], rfl⟩
  have hvalues (name : String) : ∀ q ∈ (renamedColumn name).plan.nodes, ∀ v ∈ q.values,
      v.Writable := by
    simp [renamedColumn, Plan.nodes, Plan.values, Expr.valuesOfAll, Expr.values]
  have hverbatim (name : String) : (renamedColumn name).plan.shownVerbatim = [name] := rfl
  constructor
  · obtain ⟨t, ht, hcount, -, hshift⟩ := explain_lines (hbuilt "a\nb") (hvalues _) 0
    refine ⟨t, ht, rfl, hcount, fun h => ?_⟩
    obtain hd | hnone := (hshift 1).mp h
    · cases hd
    · rw [hverbatim] at hnone
      exact hnone _ (List.mem_cons_self ..) (by decide)
  · obtain ⟨t, ht, hcount, hline, hshift⟩ := explain_lines (hbuilt "ab") (hvalues _) 0
    have hnone : ∀ x ∈ (renamedColumn "ab").plan.shownVerbatim, '\n' ∉ x.toList := by
      rw [hverbatim]
      decide
    exact ⟨t, ht, hcount, hline hnone 1 _ rfl, (hshift 1).mpr (.inr hnone)⟩

end Frame
end LazyQuery
