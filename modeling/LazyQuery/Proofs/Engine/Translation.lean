import LazyQuery.Engine.Term
import LazyQuery.Proofs.Engine.TypeConflation

/-! Which expressions that have a field have a term. References, operators and kinds of nodes
have been checked with the field, so that a term can be kept from being made by nothing but
the name of an aggregate or a type without an execution type, and what is reported says which
of the two it is. -/
namespace LazyQuery
open Engine

namespace Engine

def IsReductionName (name : String) : Prop :=
  String.ofList (name.toList.map Char.toUpper) ∈ ["MIN", "MAX", "SUM", "COUNT", "AVG"]

instance (name : String) : Decidable (IsReductionName name) := inferInstanceAs (Decidable (_ ∈ _))

/-- Letters outside ASCII that have one of these names' letters for a capital stand in
none of the names. -/
theorem upperName_eq {name : String} (h : IsReductionName name) :
    upperName name = String.ofList (name.toList.map Char.toUpper) := by
  have hall : ∀ known ∈ ["MIN", "MAX", "SUM", "COUNT", "AVG"],
    ∀ c ∈ known.toList, c ≠ Char.toUpper 'ı' ∧ c ≠ Char.toUpper 'ſ' := by simp
  have hletter : ∀ c ∈ name.toList, c ≠ 'ı' ∧ c ≠ 'ſ' := by
    intro c hc
    have hu := hall _ h c.toUpper (by simpa using ⟨c, hc, rfl⟩)
    exact ⟨fun he => hu.1 (he ▸ rfl), fun he => hu.2 (he ▸ rfl)⟩
  refine congrArg String.ofList (List.map_congr_left fun c hc => ?_)
  rw [upperLetter, if_neg (hletter c hc).1, if_neg (hletter c hc).2]

theorem exists_ofName? {name : String} (h : IsReductionName name) :
    ∃ r, Reduction.ofName? name = some r := by
  rw [Reduction.ofName?, upperName_eq h]
  simp only [IsReductionName, List.mem_cons, List.not_mem_nil, or_false] at h
  rcases h with h | h | h | h | h <;> rw [h] <;> exact ⟨_, rfl⟩

end Engine

namespace Expr
variable {n : Nat} {nodes nodes' : List Expr} {fault : Fault}

/-- The types that a node names. -/
def types : Expr → List DataType
  | .literal _ t | .cast _ t | .aggregate _ _ t => [t]
  | _ => []

/-- Aggregates that are applied to something and literals that have a value of their type. -/
structure Filled (nodes : List Expr) : Prop where
  applied : ∀ name returns, .aggregate name [] returns ∉ nodes
  valued : ∀ v t c, .literal v t ∈ nodes → t.column = .ok c → ∃ u, constant c v = .ok u

/-- A node that names nothing but aggregates there are and types that have execution types. -/
def IsTranslatable (e : Expr) : Prop :=
  (∀ name args returns, e = .aggregate name args returns → IsReductionName name) ∧
    ∀ t ∈ e.types, ∀ u ∈ t.ends, u.isMappedLeaf = true

/-- Why nodes have no term: the name of no aggregate, or a type that ends in one without an
execution type. -/
inductive Refused (nodes : List Expr) : Fault → Prop
  | aggregate {name : String} {args : List Expr} {returns : DataType} :
    .aggregate name args returns ∈ nodes → ¬IsReductionName name →
    Refused nodes (.unknownAggregate name)
  | type {e : Expr} {t u : DataType} :
    e ∈ nodes → t ∈ e.types → u ∈ t.ends → u.isMappedLeaf = false →
    Refused nodes (.unmappedType u)

theorem Refused.mono (h : Refused nodes fault) (hs : nodes ⊆ nodes') : Refused nodes' fault := by
  cases h with
  | aggregate hm hn => exact .aggregate (hs hm) hn
  | type hm ht hu hn => exact .type (hs hm) ht hu hn

theorem refused_of_column {e : Expr} {t : DataType} (he : e ∈ nodes) (ht : t ∈ e.types)
    (h : t.column = .error fault) : Refused nodes fault := by
  obtain ⟨u, hu, hn, rfl⟩ := DataType.unmapped_of_column h
  exact .type he ht hu hn

theorem Refused.exists_not_translatable (h : Refused nodes fault) :
    ∃ e ∈ nodes, ¬e.IsTranslatable := by
  cases h with
  | aggregate hm hn => exact ⟨_, hm, fun h => hn (h.1 _ _ _ rfl)⟩
  | type hm ht hu hn =>
    exact ⟨_, hm, fun h => Bool.false_ne_true (hn.symm.trans (h.2 _ ht _ hu))⟩

/-- Nodes that have been checked: references are to one of `n` fields, operators are known, and
there are neither wildcards nor nodes of no kind. -/
structure Checked (n : Nat) (nodes : List Expr) : Prop extends Filled nodes where
  bound : Bound n nodes
  whole : ∀ e ∈ nodes, ¬e.IsDefective

theorem Checked.mono (h : Checked n nodes') (hs : nodes ⊆ nodes') : Checked n nodes where
  applied name returns hm := h.applied name returns (hs hm)
  valued v t c hm := h.valued v t c (hs hm)
  bound e he := h.bound e (hs he)
  whole e he := h.whole e (hs he)

theorem self_mem_postorder (e : Expr) : e ∈ e.postorder := by
  cases e <;> simp [postorder]

theorem mem_postorderAll {e : Expr} {es : List Expr}
    (h : e ∈ es) : e.postorder ⊆ postorderAll es := by
  induction es with
  | nil => cases h
  | cons d es ih =>
    rw [postorderAll]
    rcases List.mem_cons.mp h with rfl | h
    · exact List.subset_append_left _ _
    · exact List.Subset.trans (ih h) (List.subset_append_right _ _)

theorem postorder_subset {d e : Expr} (h : d ∈ e.children) : d.postorder ⊆ e.postorder := by
  cases e with
  | column | literal | wildcard | bare => cases h
  | aggregate name args t =>
    exact List.Subset.trans (mem_postorderAll h) (List.subset_append_left _ _)
  | binary l op r =>
    rw [postorder]
    rcases List.mem_pair.mp h with rfl | rfl
    · exact List.Subset.trans (List.subset_append_left _ _) (List.subset_append_left _ _)
    · exact List.Subset.trans (List.subset_append_right _ _) (List.subset_append_left _ _)
  | not | isNull | isNotNull | cast | «alias» =>
    obtain rfl := List.mem_singleton.mp h
    exact List.subset_append_left _ _

theorem refused_of_term {layout : Schema} (e : Expr) (h : Checked layout.length e.postorder)
    (hf : term layout e = .error fault) : Refused e.postorder fault := by
  have hself := self_mem_postorder e
  match e with
  | .column i =>
    obtain ⟨f, hi⟩ := Schema.at?_of_inRange (s := layout) (i := i)
      (by simpa [Schema.inRange] using (h.bound _ hself).2 i rfl)
    rw [term, hi] at hf
    cases hf
  | .literal v t =>
    rcases Outcome.bind_eq_error.mp hf with ht | ⟨c, ht, hf⟩
    · exact refused_of_column hself (List.mem_singleton_self t) ht
    · obtain ⟨u, hu⟩ := h.valued v t c hself ht
      rw [hu] at hf
      cases hf
  | .aggregate name [] t => exact absurd hself (h.applied name t)
  | .aggregate name (a :: as) t =>
    have hsub := postorder_subset (e := .aggregate name (a :: as) t) (List.mem_cons_self ..)
    rw [term] at hf
    cases hr : Reduction.ofName? name with
    | none =>
      rw [hr] at hf
      cases hf
      refine .aggregate hself fun hn => ?_
      obtain ⟨r, hsome⟩ := exists_ofName? hn
      rw [hr] at hsome
      cases hsome
    | some r =>
      rw [hr] at hf
      rcases Outcome.bind_eq_error.mp hf with ha | ⟨u, -, hf⟩
      · exact (refused_of_term a (h.mono hsub) ha).mono hsub
      · rcases Outcome.bind_eq_error.mp hf with ht | ⟨c, -, hf⟩
        · exact refused_of_column hself (List.mem_singleton_self t) ht
        · cases hf
  | .binary l op r =>
    have hl := postorder_subset (e := .binary l op r) (List.mem_cons_self ..)
    have hr :=
      postorder_subset (e := .binary l op r) (List.mem_cons_of_mem _ (List.mem_singleton_self r))
    rcases Outcome.bind_eq_error.mp hf with hf | ⟨left, -, hf⟩
    · exact (refused_of_term l (h.mono hl) hf).mono hl
    · rcases Outcome.bind_eq_error.mp hf with hf | ⟨right, -, hf⟩
      · exact (refused_of_term r (h.mono hr) hf).mono hr
      · have hop := mt isSome_defect?.mp (h.whole _ hself)
        rw [defect?] at hop
        cases ho : Operator.ofText? op with
        | none => simp [ho] at hop
        | some o =>
          rw [ho] at hf
          cases hf
  | .not d | .isNull d | .isNotNull d | .alias d _ =>
    rcases Outcome.bind_eq_error.mp hf with hd | ⟨u, -, hf⟩
    · refine (refused_of_term d (h.mono ?_) hd).mono ?_
      all_goals exact postorder_subset (List.mem_singleton_self d)
    · cases hf
  | .cast d t =>
    rcases Outcome.bind_eq_error.mp hf with hd | ⟨u, -, hf⟩
    · have hsub := postorder_subset (e := .cast d t) (List.mem_singleton_self d)
      exact (refused_of_term d (h.mono hsub) hd).mono hsub
    · rcases Outcome.bind_eq_error.mp hf with ht | ⟨c, -, hf⟩
      · exact refused_of_column hself (List.mem_singleton_self t) ht
      · cases hf
  | .wildcard => exact absurd rfl (h.bound _ hself).1
  | .bare => exact absurd (.inr rfl) (h.whole _ hself)


theorem checked_of_field {s : Schema} {e : Expr} {f : Field} (hf : field s e = .ok f)
    (h : Filled e.postorder) : Checked s.length e.postorder := by
  obtain ⟨hb, hd⟩ := field_eq_ok.mp hf
  have hnone := fault?_derive hb
  rw [hd] at hnone
  refine ⟨h, hb, fun d hm hdef => ?_⟩
  obtain ⟨fault, hsome⟩ := exists_defect.mpr ⟨d, hm, hdef⟩
  rw [← hnone] at hsome
  cases hsome

/-- An expression that has a field over some schema has a term over any layout with as many columns,
unless one of its nodes names an aggregate that there is none of, or a type that ends in one without
an execution type; and then it is such a name or such a type that is reported. Neither positions nor
operators nor kinds of nodes are. -/
theorem term_of_field {s layout : Schema} {e : Expr} {f : Field} (hf : field s e = .ok f)
    (hl : layout.length = s.length) (h : Filled e.postorder) :
    ((∀ d ∈ e.postorder, d.IsTranslatable) → ∃ u, term layout e = .ok u) ∧
      (∀ fault, term layout e = .error fault → Refused e.postorder fault) ∧
      term layout e ≠ fail .positionOutOfRange ∧
      (∀ op, term layout e ≠ .error (.unknownOperator op)) ∧
      ∀ kind, term layout e ≠ .error (.unknownExpression kind) := by
  have hrefused : ∀ fault, term layout e = .error fault → Refused e.postorder fault :=
    fun fault => refused_of_term e (hl ▸ checked_of_field hf h)
  refine ⟨fun ht => ?_, hrefused, ?_, ?_, ?_⟩
  · cases hu : term layout e with
    | ok u => exact ⟨u, rfl⟩
    | error fault =>
      obtain ⟨d, hd, hn⟩ := (hrefused fault hu).exists_not_translatable
      exact absurd (ht d hd) hn
  · exact fun hu => nomatch hrefused _ hu
  · exact fun op hu => nomatch hrefused _ hu
  · exact fun kind hu => nomatch hrefused _ hu

def mixedSum (target : DataType) : Expr :=
  .binary (.aggregate "Sum" [.cast (.column 1) target] .int64) "/" (.literal (.int 2) .int64)

theorem filled_mixedSum (target : DataType) : Filled (mixedSum target).postorder := by
  refine ⟨fun name returns hm => ?_, fun v t c hm _ => ?_⟩
  · simp [mixedSum, postorder, postorderAll] at hm
  · simp only [mixedSum, postorder, postorderAll, List.append_nil, List.cons_append,
      List.nil_append,
      List.mem_cons, List.not_mem_nil, reduceCtorEq, false_or, or_false, literal.injEq] at hm
    rw [hm.1]
    exact ⟨_, rfl⟩

/-- Over two columns by the names of their positions the sum has a term, and none where the column
is taken as an amount: then the amount is what is reported. -/
theorem term_of_field_mixedSum :
    (∃ u, term [⟨"_0", .string, true⟩, ⟨"_1", .int64, true⟩] (mixedSum .double) =
        .ok u) ∧
      ∃ fault, term [⟨"_0", .string, true⟩, ⟨"_1", .int64, true⟩]
          (mixedSum (.leaf (.decimal128 9 2))) = .error fault ∧
        Refused (mixedSum (.leaf (.decimal128 9 2))).postorder fault := by
  have hfield : ∀ t, ∃ f,
      field [⟨"k", .string, true⟩, ⟨"v", .int64, false⟩] (mixedSum t) = .ok f :=
    fun t => ⟨_, rfl⟩
  have hdouble : ∀ d ∈ (mixedSum .double).postorder, d.IsTranslatable := by
    simp +decide [mixedSum, postorder, postorderAll, IsTranslatable, types, DataType.isMappedLeaf,
      Leaf.isMapped]
  obtain ⟨f, hf⟩ := hfield .double
  obtain ⟨g, hg⟩ := hfield (.leaf (.decimal128 9 2))
  exact ⟨(term_of_field hf (by rfl) (filled_mixedSum _)).1 hdouble,
    _, rfl, (term_of_field hg (by rfl) (filled_mixedSum _)).2.1 _ rfl⟩

end Expr
end LazyQuery
