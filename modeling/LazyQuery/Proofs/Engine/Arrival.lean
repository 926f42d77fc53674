import LazyQuery.Proofs.Engine.Literal
import LazyQuery.Proofs.Frame.Building
import LazyQuery.Proofs.Wire.Requests

/-! Literals that a message has carried. Their values may be others; where each still means the same
the relation of the plan that arrives has the rows of the relation of the plan that was sent. -/
namespace LazyQuery
open Engine Wire

/-- The literal means the same after a message has carried it. -/
def Survives (l : Datum × DataType) : Prop :=
  ∃ w, l.1.delivered? = some w ∧ meaning? w l.2 = meaning? l.1 l.2

/-- No message carries the literal, or what arrives means nothing at its type. -/
def Stranded (l : Datum × DataType) : Prop :=
  ∀ w, l.1.delivered? = some w → meaning? w l.2 = none

def Endures (l : Datum × DataType) : Prop := Survives l ∧ (meaning? l.1 l.2).isSome = true

/-- Values that travel as texts without being texts. -/
def Datum.isWorded : Datum → Bool
  | .decimal _ | .date _ | .time _ | .span _ => true
  | .moment m => m.offset.isNone
  | _ => false

section values

theorem delivered?_worded {d : Datum} (h : d.isWorded = true) :
    ∃ s, d.delivered? = some (.text s) := by
  have ht : ∀ s, itemOf d = .ok (textItem s) → d.delivered? = some (.text s) := by
    intro s hs
    rw [Datum.delivered?, hs, Outcome.toOption_ok, Option.bind_some, textItem, datumOf,
      readUtf8_toUTF8]
    rfl
  cases d with
  | decimal x => exact ⟨_, ht _ rfl⟩
  | date x => exact ⟨_, ht _ rfl⟩
  | time x => exact ⟨_, ht _ rfl⟩
  | span x => exact ⟨_, ht _ rfl⟩
  | moment m =>
    have hm : m.offset = none := Option.isNone_iff_eq_none.mp h
    exact ⟨_, ht _ (by rw [itemOf, momentItem, hm])⟩
  | _ => cases h

theorem stranded_worded {d : Datum} {t : DataType} {c : ColumnType} (h : d.isWorded = true)
    (ht : t.column = .ok c) (hc : castable .string c = false) : Stranded (d, t) := by
  intro w hw
  obtain ⟨s, hs⟩ := delivered?_worded h
  rw [hs] at hw
  cases hw
  rw [meaning?, ht]
  simp [Outcome.ok_bind, constant, Outcome.toOption_ok, Term.value?, hc]

end values

section expressions
variable {layout : Schema}

theorem literal_delivered {v w : Datum} {t : DataType} (hd : v.delivered? = some w)
    (h : Endures (v, t)) :
    Outcome.Follows (fun u u' => u'.StandsFor u) (term layout (.literal v t))
      (term layout (.literal w t)) := by
  obtain ⟨⟨w', hw', hm⟩, hsome⟩ := h
  rw [hd] at hw'
  cases hw'
  intro u hu
  obtain ⟨u', hu'⟩ := literal_of_meaning (hm ▸ hsome) layout
  refine ⟨u', hu', standsFor_of_value (isConstant_of_literal hu) ?_⟩
  rw [← meaning_of_literal hu', ← meaning_of_literal hu, hm]

/-- Where all literals survive, the term of what arrives stands for the term of what was sent. -/
theorem term_delivered {e e' : Expr} (hd : e.delivered? = some e')
    (hs : ∀ l ∈ e.literals, Endures l) :
    Outcome.Follows (fun t t' => t'.StandsFor t) (term layout e) (term layout e') := by
  match e with
  | .column i =>
    rw [Expr.delivered?] at hd
    split at hd
    · cases hd
      exact fun t ht => ⟨t, ht, .refl t⟩
    · cases hd
  | .literal v ty =>
    obtain ⟨w, hw, rfl⟩ := Option.map_eq_some_iff.mp hd
    exact literal_delivered hw (hs _ (List.mem_singleton.mpr rfl))
  | .wildcard => exact .error
  | .bare => exact .error
  | .aggregate name [] returns =>
    cases hd
    exact fun t ht => ⟨t, ht, .refl t⟩
  | .aggregate name (e :: es) returns =>
    obtain ⟨args, ha, rfl⟩ := Option.map_eq_some_iff.mp hd
    obtain ⟨e', he', ha⟩ := Option.bind_eq_some_iff.mp ha
    obtain ⟨es', hes', rfl⟩ := Option.map_eq_some_iff.mp ha
    simp only [term]
    split
    · exact .error
    · refine (term_delivered he' hs).bind fun u u' hu => ?_
      refine (Outcome.Follows.refl _).bind ?_
      rintro c _ rfl
      exact .ok ((hu.reduce _).cast c)
  | .binary l op r =>
    obtain ⟨l', hl', hd⟩ := Option.bind_eq_some_iff.mp hd
    obtain ⟨r', hr', rfl⟩ := Option.map_eq_some_iff.mp hd
    obtain ⟨hsl, hsr⟩ := List.forall_mem_append.mp hs
    refine (term_delivered hl' hsl).bind fun a a' ha => ?_
    refine (term_delivered hr' hsr).bind fun b b' hb => ?_
    split
    · exact .ok (ha.binary hb _)
    · exact .error
  | .not e =>
    obtain ⟨e', he', rfl⟩ := Option.map_eq_some_iff.mp hd
    exact (term_delivered he' hs).bind fun u u' hu => .ok hu.not
  | .isNull e =>
    obtain ⟨e', he', rfl⟩ := Option.map_eq_some_iff.mp hd
    exact (term_delivered he' hs).bind fun u u' hu => .ok hu.isNull
  | .isNotNull e =>
    obtain ⟨e', he', rfl⟩ := Option.map_eq_some_iff.mp hd
    exact (term_delivered he' hs).bind fun u u' hu => .ok hu.isNotNull
  | .cast e ty =>
    obtain ⟨e', he', rfl⟩ := Option.map_eq_some_iff.mp hd
    refine (term_delivered he' hs).bind fun u u' hu => ?_
    refine (Outcome.Follows.refl _).bind ?_
    rintro c _ rfl
    exact .ok (hu.cast c)
  | .alias e name =>
    obtain ⟨e', he', rfl⟩ := Option.map_eq_some_iff.mp hd
    exact (term_delivered he' hs).bind fun u u' hu => .ok (hu.named name)

theorem positionalTerms_delivered {es es' : List Expr} {start : Nat}
    (hd : Expr.allDelivered? es = some es') (hs : ∀ l ∈ es.flatMap Expr.literals, Endures l) :
    Outcome.Follows Stand (positionalTerms start layout es) (positionalTerms start layout es') := by
  induction es generalizing start es' with
  | nil =>
    cases hd
    exact fun ts hts => ⟨ts, hts, .refl ts⟩
  | cons e es ih =>
    obtain ⟨e', he', hd⟩ := Option.bind_eq_some_iff.mp hd
    obtain ⟨es'', hes', rfl⟩ := Option.map_eq_some_iff.mp hd
    rw [List.flatMap_cons] at hs
    obtain ⟨hse, hses⟩ := List.forall_mem_append.mp hs
    rw [positionalTerms_cons, positionalTerms_cons]
    refine (term_delivered he' hse).bind fun t t' ht => ?_
    exact (ih hes' hses).bind fun ts ts' hts => .ok (.cons ⟨rfl, ht⟩ hts)

end expressions

section plans
variable {p q : Plan}

theorem schema_delivered (h : p.delivered? = some q) : q.schema = p.schema := by
  induction p generalizing q with
  | empty s =>
    cases h
    rfl
  | memory bs s =>
    cases h
    rfl
  | file scan =>
    rw [Plan.delivered?] at h
    split at h
    · cases h
      rfl
    · cases h
  | projection es p s ih =>
    obtain ⟨es', -, h⟩ := Option.bind_eq_some_iff.mp h
    obtain ⟨p', -, rfl⟩ := Option.map_eq_some_iff.mp h
    rfl
  | selection e p ih =>
    obtain ⟨e', -, h⟩ := Option.bind_eq_some_iff.mp h
    obtain ⟨p', hp', rfl⟩ := Option.map_eq_some_iff.mp h
    exact ih (q := p') hp'
  | limit e p s ih =>
    rw [Plan.delivered?] at h
    split at h
    · obtain ⟨e', -, h⟩ := Option.bind_eq_some_iff.mp h
      obtain ⟨p', -, rfl⟩ := Option.map_eq_some_iff.mp h
      rfl
    · cases h
  | aggregate p gs as s ih =>
    obtain ⟨p', -, h⟩ := Option.bind_eq_some_iff.mp h
    obtain ⟨gs', -, h⟩ := Option.bind_eq_some_iff.mp h
    obtain ⟨as', -, rfl⟩ := Option.map_eq_some_iff.mp h
    rfl
  | bare => cases h

theorem length_delivered {es es' : List Expr} (h : Expr.allDelivered? es = some es') :
    es'.length = es.length := by
  induction es generalizing es' with
  | nil =>
    cases h
    rfl
  | cons e es ih =>
    obtain ⟨e', -, h⟩ := Option.bind_eq_some_iff.mp h
    obtain ⟨es'', hes, rfl⟩ := Option.map_eq_some_iff.mp h
    rw [List.length_cons, List.length_cons, ih hes]

theorem delivered?_int {i : Int} {w : Datum} (h : (Datum.int i).delivered? = some w) :
    w = .int i := by
  by_cases hi : Held i
  · rw [Wire.delivered?_portable (d := .int i) hi] at h
    cases h
    rfl
  · rw [Datum.delivered?, itemOf, intItem, if_neg (by simpa [Held] using hi)] at h
    cases h

/-- The second relation stands for the first, and both find their columns by one layout. -/
def Answers (a b : Relation × Schema) : Prop := b.1.StandsFor a.1 ∧ a.2 = b.2

theorem Stand.grouped {ks ks' ts ts' : List (String × Term)} {r r' : Relation} (hk : Stand ks ks')
    (ht : Stand ts ts') (hr : r'.StandsFor r) :
    (if ks'.isEmpty then Relation.select (.terms ts') r' else .group ks' ts' r').StandsFor
      (if ks.isEmpty then .select (.terms ts) r else .group ks ts r) := by
  cases hk with
  | nil => exact .select ht hr
  | cons hkey hrest => exact .group (.cons hkey hrest) ht hr

/-- Where all literals survive, the relation of the plan that arrives differs from that of the plan
that was sent only in terms that stand for one another. -/
theorem relationOf_delivered (hw : p.WellFormed) (hd : p.delivered? = some q)
    (hs : ∀ l ∈ p.literals, Endures l) :
    Outcome.Follows Answers (relationOf p) (relationOf q) := by
  induction p generalizing q with
  | empty | memory =>
    cases hd
    exact fun r hr => ⟨r, hr, .refl r.1, rfl⟩
  | file scan =>
    rw [Plan.delivered?] at hd
    split at hd
    · cases hd
      exact fun r hr => ⟨r, hr, .refl r.1, rfl⟩
    · cases hd
  | projection es p s ih =>
    obtain ⟨es', hes', hd⟩ := Option.bind_eq_some_iff.mp hd
    obtain ⟨p', hp', rfl⟩ := Option.map_eq_some_iff.mp hd
    obtain ⟨hse, hsp⟩ := List.forall_mem_append.mp hs
    refine (ih (Plan.wellFormed_input hw rfl) hp' hsp).bind ?_
    rintro ⟨u, layout⟩ ⟨u', _⟩ ⟨hu, rfl⟩
    exact (positionalTerms_delivered hes' hse).bind fun ts ts' ht => .ok ⟨.select ht hu, rfl⟩
  | selection e p ih =>
    obtain ⟨e', he', hd⟩ := Option.bind_eq_some_iff.mp hd
    obtain ⟨p', hp', rfl⟩ := Option.map_eq_some_iff.mp hd
    obtain ⟨hse, hsp⟩ := List.forall_mem_append.mp hs
    refine (ih (Plan.wellFormed_input hw rfl) hp' hsp).bind ?_
    rintro ⟨u, layout⟩ ⟨u', _⟩ ⟨hu, rfl⟩
    exact (term_delivered he' hse).bind fun t t' ht => .ok ⟨.filter ht hu, rfl⟩
  | limit e p s ih =>
    -- a well-formed plan counts in whole numbers, and a whole number that arrives is what was sent
    obtain ⟨-, n, rfl⟩ := hw _ (List.mem_cons_self ..)
    rw [Plan.delivered?, if_pos (by rfl)] at hd
    obtain ⟨e', he', hd⟩ := Option.bind_eq_some_iff.mp hd
    obtain ⟨p', hp', rfl⟩ := Option.map_eq_some_iff.mp hd
    obtain ⟨w, hw', rfl⟩ := Option.map_eq_some_iff.mp he'
    obtain rfl := delivered?_int hw'
    refine (ih (Plan.wellFormed_input hw rfl) hp' hs).bind ?_
    rintro ⟨u, layout⟩ ⟨u', _⟩ ⟨hu, rfl⟩
    refine (Outcome.Follows.refl _).bind ?_
    rintro m _ rfl
    exact .ok ⟨.take m hu, rfl⟩
  | aggregate p gs as s ih =>
    obtain ⟨p', hp', hd⟩ := Option.bind_eq_some_iff.mp hd
    obtain ⟨gs', hgs', hd⟩ := Option.bind_eq_some_iff.mp hd
    obtain ⟨as', has', rfl⟩ := Option.map_eq_some_iff.mp hd
    rw [Plan.literals, List.flatMap_append] at hs
    obtain ⟨hse, hsp⟩ := List.forall_mem_append.mp hs
    obtain ⟨hsg, hsa⟩ := List.forall_mem_append.mp hse
    refine (ih (Plan.wellFormed_input hw rfl) hp' hsp).bind ?_
    rintro ⟨u, layout⟩ ⟨u', _⟩ ⟨hu, rfl⟩
    refine (positionalTerms_delivered hgs' hsg).bind fun ks ks' hk => ?_
    rw [length_delivered hgs']
    refine (positionalTerms_delivered has' hsa).bind fun ts ts' ht => ?_
    exact .ok ⟨Stand.grouped hk ht hu, rfl⟩
  | bare => cases hd

/-- The second literal is what arrives of the first, with the type that was sent. -/
def ArrivesAs (l m : Datum × DataType) : Prop := l.1.delivered? = some m.1 ∧ l.2 = m.2

mutual
/-- The literals of an expression that arrives are what arrives of the literals, in their order. -/
theorem literals_delivered {e e' : Expr} (h : e.delivered? = some e') :
    List.Forall₂ ArrivesAs e.literals e'.literals := by
  match e with
  | .column i =>
    rw [Expr.delivered?] at h
    split at h
    · cases h
      exact .nil
    · cases h
  | .wildcard =>
    cases h
    exact .nil
  | .bare => cases h
  | .literal v t =>
    obtain ⟨w, hw, rfl⟩ := Option.map_eq_some_iff.mp h
    exact .cons ⟨hw, rfl⟩ .nil
  | .aggregate name args t =>
    obtain ⟨args', ha, rfl⟩ := Option.map_eq_some_iff.mp h
    exact firstLiterals_delivered ha
  | .binary a op b =>
    obtain ⟨a', ha, h⟩ := Option.bind_eq_some_iff.mp h
    obtain ⟨b', hb, rfl⟩ := Option.map_eq_some_iff.mp h
    exact List.rel_append (literals_delivered ha) (literals_delivered hb)
  | .not e | .isNull e | .isNotNull e | .cast e _ | .alias e _ =>
    obtain ⟨e', he, rfl⟩ := Option.map_eq_some_iff.mp h
    have hl : List.Forall₂ ArrivesAs e.literals e'.literals := literals_delivered he
    exact hl

theorem firstLiterals_delivered {es es' : List Expr} (h : Expr.allDelivered? es = some es') :
    List.Forall₂ ArrivesAs (Expr.firstLiterals es) (Expr.firstLiterals es') := by
  match es with
  | [] =>
    cases h
    exact .nil
  | e :: es =>
    obtain ⟨e', he, h⟩ := Option.bind_eq_some_iff.mp h
    obtain ⟨es'', -, rfl⟩ := Option.map_eq_some_iff.mp h
    have hl : List.Forall₂ ArrivesAs e.literals e'.literals := literals_delivered he
    exact hl
end

theorem allLiterals_delivered {es es' : List Expr} (h : Expr.allDelivered? es = some es') :
    List.Forall₂ ArrivesAs (es.flatMap Expr.literals) (es'.flatMap Expr.literals) := by
  induction es generalizing es' with
  | nil =>
    cases h
    exact .nil
  | cons e es ih =>
    obtain ⟨e', he, h⟩ := Option.bind_eq_some_iff.mp h
    obtain ⟨es'', hes, rfl⟩ := Option.map_eq_some_iff.mp h
    rw [List.flatMap_cons, List.flatMap_cons]
    exact List.rel_append (literals_delivered he) (ih hes)

theorem planLiterals_delivered (h : p.delivered? = some q) :
    List.Forall₂ ArrivesAs p.literals q.literals := by
  induction p generalizing q with
  | empty | memory =>
    cases h
    exact .nil
  | file scan =>
    rw [Plan.delivered?] at h
    split at h
    · cases h
      exact .nil
    · cases h
  | bare => cases h
  | projection es p s ih =>
    obtain ⟨es', hes, h⟩ := Option.bind_eq_some_iff.mp h
    obtain ⟨p', hp, rfl⟩ := Option.map_eq_some_iff.mp h
    exact List.rel_append (allLiterals_delivered hes) (ih hp)
  | selection e p ih =>
    obtain ⟨e', he, h⟩ := Option.bind_eq_some_iff.mp h
    obtain ⟨p', hp, rfl⟩ := Option.map_eq_some_iff.mp h
    exact List.rel_append (literals_delivered he) (ih hp)
  | limit e p s ih =>
    rw [Plan.delivered?] at h
    split at h
    · obtain ⟨e', -, h⟩ := Option.bind_eq_some_iff.mp h
      obtain ⟨p', hp, rfl⟩ := Option.map_eq_some_iff.mp h
      exact ih (q := p') hp
    · cases h
  | aggregate p gs as s ih =>
    obtain ⟨p', hp, h⟩ := Option.bind_eq_some_iff.mp h
    obtain ⟨gs', hgs, h⟩ := Option.bind_eq_some_iff.mp h
    obtain ⟨as', has, rfl⟩ := Option.map_eq_some_iff.mp h
    rw [Plan.literals, Plan.literals, List.flatMap_append, List.flatMap_append]
    have hargs := List.rel_append (allLiterals_delivered hgs) (allLiterals_delivered has)
    exact List.rel_append hargs (ih hp)

end plans

end LazyQuery
