import LazyQuery.Plan
import LazyQuery.Proofs.Expr.Alike
import LazyQuery.Proofs.Wire.Items

/-! One expression in the place of another that equals it. Equal values can have different texts and
different forms in messages, and so can equal types; what depends on neither stays the same wherever
the one expression is put for the other, and the rest stays the same where those agree. -/
namespace LazyQuery
open Outcome

namespace Expr

/-- The second expression is the first with `b` for `a` in any number of places, or in none. -/
inductive Replaced (a b : Expr) : Expr → Expr → Prop
  | same (e : Expr) : Replaced a b e e
  | here : Replaced a b a b
  | aggregate (name : String) {es fs : List Expr}
      (t : DataType) : List.Forall₂ (Replaced a b) es fs →
    Replaced a b (.aggregate name es t) (.aggregate name fs t)
  | binary {l l' r r' : Expr} (op : String) : Replaced a b l l' → Replaced a b r r' →
    Replaced a b (.binary l op r) (.binary l' op r')
  | not {e f : Expr} : Replaced a b e f → Replaced a b (.not e) (.not f)
  | isNull {e f : Expr} : Replaced a b e f → Replaced a b (.isNull e) (.isNull f)
  | isNotNull {e f : Expr} : Replaced a b e f → Replaced a b (.isNotNull e) (.isNotNull f)
  | cast {e f : Expr} (t : DataType) : Replaced a b e f → Replaced a b (.cast e t) (.cast f t)
  | alias {e f : Expr} (name : String) : Replaced a b e f →
      Replaced a b (.alias e name) (.alias f name)

section replaced
variable {V : Datum → Datum → Prop} {T R : DataType → DataType → Prop} {a b : Expr}

mutual
/-- Putting one of two alike expressions for the other leaves every expression alike. -/
theorem alike_replaced (hab : Alike V T R a b) (hV : ∀ v, V v v) (hT : ∀ t, T t t)
    (hR : ∀ t, R t t) {e f : Expr} (h : Replaced a b e f) : Alike V T R e f := by
  cases h with
  | same => exact alike_self hV hT hR e
  | here => exact hab
  | aggregate name t hes => exact .aggregate name (alike_replacedAll hab hV hT hR hes) (hR t)
  | binary op hl hr =>
    exact .binary op (alike_replaced hab hV hT hR hl) (alike_replaced hab hV hT hR hr)
  | not he => exact .not (alike_replaced hab hV hT hR he)
  | isNull he => exact .isNull (alike_replaced hab hV hT hR he)
  | isNotNull he => exact .isNotNull (alike_replaced hab hV hT hR he)
  | cast t he => exact .cast (alike_replaced hab hV hT hR he) (hT t)
  | «alias» name he => exact .alias name (alike_replaced hab hV hT hR he)

theorem alike_replacedAll (hab : Alike V T R a b) (hV : ∀ v, V v v) (hT : ∀ t, T t t)
    (hR : ∀ t, R t t)
    {es fs : List Expr} (h : List.Forall₂ (Replaced a b) es fs) : List.Forall₂ (Alike V T R) es
      fs := by
  cases h with
  | nil => exact .nil
  | cons he hes => exact .cons (alike_replaced hab hV hT hR he) (alike_replacedAll hab hV hT hR hes)
end

mutual
/-- Where the results are alike, the expressions put for one another are, unless none was. -/
theorem alike_of_replaced {e f : Expr} (h : Replaced a b e f) (hef : Alike V T R e f) :
    e = f ∨ Alike V T R a b := by
  cases h with
  | same => exact .inl rfl
  | here => exact .inr hef
  | aggregate name t hes =>
    cases hef with
    | aggregate _ has _ => exact (alike_of_replacedAll hes has).imp_left fun h => by rw [h]
  | binary op hl hr =>
    cases hef with
    | binary _ hl' hr' =>
      rcases alike_of_replaced hl hl' with rfl | hab
      · exact (alike_of_replaced hr hr').imp_left fun h => by rw [h]
      · exact .inr hab
  | not he =>
    cases hef with
    | not he' => exact (alike_of_replaced he he').imp_left fun h => by rw [h]
  | isNull he =>
    cases hef with
    | isNull he' => exact (alike_of_replaced he he').imp_left fun h => by rw [h]
  | isNotNull he =>
    cases hef with
    | isNotNull he' => exact (alike_of_replaced he he').imp_left fun h => by rw [h]
  | cast t he =>
    cases hef with
    | cast he' _ => exact (alike_of_replaced he he').imp_left fun h => by rw [h]
  | «alias» name he =>
    cases hef with
    | «alias» _ he' => exact (alike_of_replaced he he').imp_left fun h => by rw [h]

theorem alike_of_replacedAll {es fs : List Expr} (h : List.Forall₂ (Replaced a b) es fs)
    (hef : List.Forall₂ (Alike V T R) es fs) : es = fs ∨ Alike V T R a b := by
  cases h with
  | nil => exact .inl rfl
  | cons he hes =>
    cases hef with
    | cons he' hes' =>
      rcases alike_of_replaced he he' with rfl | hab
      · exact (alike_of_replacedAll hes hes').imp_left fun h => by rw [h]
      · exact .inr hab
end

theorem sameTypes_replaced (h : SameTypes a b) {e f : Expr}
    (hef : Replaced a b e f) : SameTypes e f :=
  alike_replaced h (fun _ => trivial) DataType.equal_self DataType.equal_self hef

theorem sameTexts_replaced (h : SameTexts a b) {e f : Expr}
    (hef : Replaced a b e f) : SameTexts e f :=
  alike_replaced h (fun _ => rfl) (fun _ => rfl) (fun _ => trivial) hef

theorem sameNames_replaced (h : SameNames a b) {e f : Expr}
    (hef : Replaced a b e f) : SameNames e f := by
  cases hef with
  | same => rfl
  | here => exact h
  | binary op hl hr =>
    have hnl := sameNames_replaced h hl
    have hnr := sameNames_replaced h hr
    rw [SameNames, namedValues, namedValues, List.map_append, List.map_append, hnl, hnr]
  | not he | isNull he | isNotNull he | cast _ he =>
    have hn := sameNames_replaced h he
    exact hn
  | aggregate | «alias» => rfl

theorem replaced_expanded (h : SameTypes a b) (n : Nat) {es fs : List Expr}
    (hef : List.Forall₂ (Replaced a b) es fs) :
    List.Forall₂ (Replaced a b) (expandWildcards n es) (expandWildcards n fs) := by
  induction hef with
  | nil => exact .nil
  | cons he _ ih =>
    rw [expandWildcards_cons, expandWildcards_cons, isWildcard_alike (sameTypes_replaced h he)]
    refine List.rel_append ?_ ih
    split
    · exact List.forall₂_same.mpr fun e _ => .same e
    · exact .cons he .nil

end replaced

section fields
variable {a b : Expr} {s : Schema}

theorem related_derive_replaced (h : SameTypes a b) {e f : Expr} (hef : Replaced a b e f) :
    Related (fun x y => Akin x y ∧ (SameNames a b → x.name = y.name)) (derive s e)
    (derive s f) := by
  have ht := sameTypes_replaced h hef
  refine (related_derive ht).and fun x y hx hy hn => ?_
  exact name_derive ht (sameNames_replaced hn hef) hx hy

theorem related_fields_replaced (h : SameTypes a b) {es fs : List Expr}
    (hef : List.Forall₂ (Replaced a b) es fs) :
    Related (List.Forall₂ fun x y => Akin x y ∧ (SameNames a b → x.name = y.name))
      (fields s es) (fields s fs) := by
  have ht : List.Forall₂ SameTypes es fs := hef.imp fun _ _ => sameTypes_replaced h
  rw [fields, fields, checkReferences_alike s.length ht]
  refine (Related.refl (fun _ => rfl) _).bind fun _ _ _ => ?_
  exact related_deriveAll_of (hef.imp fun _ _ => related_derive_replaced h)

theorem related_field_replaced (h : SameTypes a b) {e f : Expr} (hef : Replaced a b e f) :
    Related (fun x y => Akin x y ∧ (SameNames a b → x.name = y.name)) (field s e)
    (field s f) := by
  rw [field, field, checkReferences_alike s.length (.cons (sameTypes_replaced h hef) .nil)]
  exact (Related.refl (fun _ => rfl) _).bind fun _ _ _ => related_derive_replaced h hef

end fields
end Expr

namespace Plan

/-- The second plan is the first with `b` for `a` in any number of places of its expressions. -/
inductive Replaced (a b : Expr) : Plan → Plan → Prop
  | same (p : Plan) : Replaced a b p p
  | projection {es fs : List Expr} {p q : Plan}
      (s : Schema) : List.Forall₂ (Expr.Replaced a b) es fs →
    Replaced a b p q → Replaced a b (.projection es p s) (.projection fs q s)
  | selection {e f : Expr} {p q : Plan} : Expr.Replaced a b e f → Replaced a b p q →
    Replaced a b (.selection e p) (.selection f q)
  | limit {e f : Expr} {p q : Plan} (s : Schema) : Expr.Replaced a b e f → Replaced a b p q →
    Replaced a b (.limit e p s) (.limit f q s)
  | aggregate {p q : Plan} {gs gs' as as' : List Expr} (s : Schema) : Replaced a b p q →
    List.Forall₂ (Expr.Replaced a b) gs gs' → List.Forall₂ (Expr.Replaced a b) as as' →
    Replaced a b (.aggregate p gs as s) (.aggregate q gs' as' s)

theorem schema_replaced {a b : Expr} {p q : Plan} (h : Replaced a b p q) : p.schema = q.schema := by
  induction h with
  | selection _ _ ih => exact ih
  | _ => rfl

end Plan

namespace Wire
open LazyQuery.Expr

section requests
variable {a b : Expr} {p q : Plan}

theorem exprItems_replaced (h : SameItems a b) {es fs : List Expr}
    (hef : List.Forall₂ (Expr.Replaced a b) es fs) : exprItems es = exprItems fs :=
  exprItems_alike (alike_replacedAll h (fun _ => rfl) (fun _ => rfl) (fun _ => rfl) hef)

theorem exprItem_replaced (h : SameItems a b) {e f : Expr} (hef : Expr.Replaced a b e f) :
    exprItem e = exprItem f :=
  exprItem_alike (alike_replaced h (fun _ => rfl) (fun _ => rfl) (fun _ => rfl) hef)

theorem planItem_replaced (h : SameItems a b) (hpq : Plan.Replaced a b p q) :
    planItem p = planItem q := by
  induction hpq with
  | same => rfl
  | projection s hes _ ih => rw [planItem, planItem, exprItems_replaced h hes, ih]
  | selection he _ ih => rw [planItem, planItem, exprItem_replaced h he, ih]
  | limit s he _ ih => rw [planItem, planItem, exprItem_replaced h he, ih]
  | aggregate s _ hgs has ih =>
    rw [planItem, planItem, exprItems_replaced h hgs, exprItems_replaced h has, ih]

theorem encodeRequest_replaced (h : SameItems a b) (hpq : Plan.Replaced a b p q) :
    encodeRequest p = encodeRequest q := by
  rw [encodeRequest, encodeRequest, requestItem, requestItem, planItem_replaced h hpq]

theorem sameItems_of_replaced (h : SameTypes a b) {e f : Expr} (hef : Expr.Replaced a b e f)
    {i : Item} (he : exprItem e = .ok i) (hf : exprItem f = .ok i) : e = f ∨ SameItems a b :=
  alike_of_replaced hef (sameItems_of_exprItem (sameTypes_replaced h hef) he hf)

theorem sameItems_of_replacedAll (h : SameTypes a b) {es fs : List Expr}
    (hef : List.Forall₂ (Expr.Replaced a b) es fs) {is : List Item} (he : exprItems es = .ok is)
    (hf : exprItems fs = .ok is) : es = fs ∨ SameItems a b :=
  alike_of_replacedAll hef
    (sameItems_of_exprItems (hef.imp fun _ _ => sameTypes_replaced h) he hf)

theorem first_two_of_node {x x' y y' : Outcome Item} {kind m n : String}
    {ms ns : List (String × Item)}
    {i : Item} (hp : (x >>= fun j => y >>= fun k => .ok (planNode kind ((m, j) :: (n, k) :: ms))) =
      .ok i)
    (hq : (x' >>= fun j => y' >>= fun k => .ok (planNode kind ((m, j) :: (n, k) :: ns))) = .ok i) :
    (∃ j, x = .ok j ∧ x' = .ok j) ∧ ∃ k, y = .ok k ∧ y' = .ok k := by
  obtain ⟨j, hj, hp⟩ := bind_eq_ok.mp hp
  obtain ⟨k, hk, hp⟩ := bind_eq_ok.mp hp
  obtain ⟨j', hj', hq⟩ := bind_eq_ok.mp hq
  obtain ⟨k', hk', hq⟩ := bind_eq_ok.mp hq
  obtain ⟨rfl, hm⟩ := List.cons.inj (members_of_node (Except.ok.inj (hp.trans hq.symm)))
  obtain ⟨rfl, -⟩ := List.cons.inj hm
  exact ⟨⟨j, hj, hj'⟩, k, hk, hk'⟩

/-- Plans that differ in one expression being put for another have one item only if the two
expressions have the same values and types. -/
theorem sameItems_of_planItem (h : SameTypes a b) (hpq : Plan.Replaced a b p q) {i : Item}
    (hp : planItem p = .ok i) (hq : planItem q = .ok i) : p = q ∨ SameItems a b := by
  induction hpq generalizing i with
  | same => exact .inl rfl
  | projection s hes _ ih =>
    obtain ⟨is, his, hp⟩ := bind_eq_ok.mp hp
    obtain ⟨i', hi, hp⟩ := bind_eq_ok.mp hp
    obtain ⟨js, hjs, hq⟩ := bind_eq_ok.mp hq
    obtain ⟨j', hj, hq⟩ := bind_eq_ok.mp hq
    have hm := members_of_node (Except.ok.inj (hp.trans hq.symm))
    obtain ⟨rfl, rfl⟩ : is = js ∧ i' = j' := by simpa using hm
    rcases sameItems_of_replacedAll h hes his hjs with rfl | hs
    · exact (ih hi hj).imp_left fun h => by rw [h]
    · exact .inr hs
  | selection he _ ih =>
    obtain ⟨⟨i, hi, hj⟩, i', hi', hj'⟩ := first_two_of_node hp hq
    rcases sameItems_of_replaced h he hi hj with rfl | hs
    · exact (ih hi' hj').imp_left fun h => by rw [h]
    · exact .inr hs
  | limit s he _ ih =>
    obtain ⟨⟨i, hi, hj⟩, i', hi', hj'⟩ := first_two_of_node hp hq
    rcases sameItems_of_replaced h he hi hj with rfl | hs
    · exact (ih hi' hj').imp_left fun h => by rw [h]
    · exact .inr hs
  | aggregate s _ hgs has ih =>
    obtain ⟨i, hi, hp⟩ := bind_eq_ok.mp hp
    obtain ⟨is, his, hp⟩ := bind_eq_ok.mp hp
    obtain ⟨is', his', hp⟩ := bind_eq_ok.mp hp
    obtain ⟨j, hj, hq⟩ := bind_eq_ok.mp hq
    obtain ⟨js, hjs, hq⟩ := bind_eq_ok.mp hq
    obtain ⟨js', hjs', hq⟩ := bind_eq_ok.mp hq
    have hm := members_of_node (Except.ok.inj (hp.trans hq.symm))
    obtain ⟨rfl, rfl, rfl⟩ : i = j ∧ is = js ∧ is' = js' := by simpa using hm
    rcases sameItems_of_replacedAll h hgs his hjs with rfl | hs
    · rcases sameItems_of_replacedAll h has his' hjs' with rfl | hs
      · exact (ih hi hj).imp_left fun h => by rw [h]
      · exact .inr hs
    · exact .inr hs

theorem item_of_encodeRequest {ts : List Token} (h : encodeRequest p = .ok ts) :
    ∃ i, planItem p = .ok i ∧ (decode ts).1 = node "action" "Collect" [("plan", i)] := by
  obtain ⟨i, hi, h⟩ := bind_eq_ok.mp h
  split at h
  · rename_i hf
    obtain ⟨j, hj, hi⟩ := bind_eq_ok.mp hi
    cases h
    cases hi
    exact ⟨j, hj, by rw [decode_encode hf]⟩
  · cases h

theorem planItem_of_encodeRequest {ts : List Token} (hp : encodeRequest p = .ok ts)
    (hq : encodeRequest q = .ok ts) : ∃ i, planItem p = .ok i ∧ planItem q = .ok i := by
  obtain ⟨i, hi, hp⟩ := item_of_encodeRequest hp
  obtain ⟨j, hj, hq⟩ := item_of_encodeRequest hq
  obtain ⟨rfl, -⟩ := List.cons.inj (members_of_node (hp.symm.trans hq))
  exact ⟨i, hi, hj⟩

end requests
end Wire

/-- Equal expressions in the place of one another, any number of times. Where their values can be
written, faults stay the same, and fields keep their types; they keep their names where the values
in them have one plain form, and texts stay where values have one exact form, and types one text.
The schema of a plan stays. Its message stays if values and types are the same in messages and, if
something was replaced, only then. -/
theorem Expr.interchange {a b : Expr} (h : a.equal b = true) :
    ((∀ v ∈ a.values ++ b.values, v.Writable) →
      (∀ s e f, Expr.Replaced a b e f →
        Related (fun x y => Akin x y ∧ (SameNames a b → x.name = y.name))
          (field s e) (field s f)) ∧
      (∀ s es fs, List.Forall₂ (Expr.Replaced a b) es fs →
        Related (List.Forall₂ fun x y => Akin x y ∧ (SameNames a b → x.name = y.name))
          (fields s (expandWildcards s.length es)) (fields s (expandWildcards s.length fs))) ∧
      (SameTexts a b → ∀ e f, Expr.Replaced a b e f → e.text = f.text)) ∧
    ∀ p q, Plan.Replaced a b p q →
      p.schema = q.schema ∧
      (SameItems a b → Wire.encodeRequest p = Wire.encodeRequest q) ∧
      ∀ ts, Wire.encodeRequest p = .ok ts → Wire.encodeRequest q = .ok ts →
        p = q ∨ SameItems a b := by
  have ht := sameTypes_of_equal h
  refine ⟨fun _ => ⟨fun s e f => related_field_replaced ht, fun s es fs hef => ?_,
    fun hx e f hef => ?_⟩, fun p q hpq => ⟨Plan.schema_replaced hpq, fun hi => ?_,
    fun ts hp hq => ?_⟩⟩
  · exact related_fields_replaced ht (replaced_expanded ht s.length hef)
  · exact text_alike (sameTexts_replaced hx hef)
  · exact Wire.encodeRequest_replaced hi hpq
  · obtain ⟨i, hi, hj⟩ := Wire.planItem_of_encodeRequest hp hq
    exact Wire.sameItems_of_planItem ht hpq hi hj

/-- One column called "x", over an input without columns. -/
def Plan.single (e : Expr) (t : DataType) : Plan :=
    .projection [.alias e "x"] (.empty []) [⟨"x", t, true⟩]

theorem Plan.single_replaced {a b : Expr} (t : DataType) :
    Plan.Replaced a b (Plan.single a t) (Plan.single b t) :=
  .projection _ (.cons (.alias "x" .here) .nil) (.same _)

def Expr.stamp : DataType := .leaf (.timestamp .micro (some "UTC"))

/-- Noon in universal time, and the same moment on a clock that is an hour ahead. -/
def Expr.noon : Expr := .literal (.moment ⟨43200000000, some 0⟩) stamp
def Expr.noonAhead : Expr := .literal (.moment ⟨46800000000, some 3600000000⟩) stamp

/-- Sums of one column that declare lists, which call their members differently. -/
def Expr.listSum (member : String) : Expr :=
  .aggregate "SUM" [.column 0] (.list ⟨member, .int64, true⟩)

theorem Expr.interchange_noon_listSum :
    (noon.equal noonAhead = true ∧ noon ≠ noonAhead ∧
      Wire.encodeRequest (.single noon stamp) = Wire.encodeRequest (.single noonAhead stamp)) ∧
    (listSum "item").equal (listSum "element") = true ∧ listSum "item" ≠ listSum "element" ∧
      (Expr.not (listSum "item")).text = (Expr.not (listSum "element")).text ∧
      ∀ s, Related (fun x y => Akin x y ∧ x.name = y.name)
        (field s (listSum "item")) (field s (listSum "element")) := by
  have hn : noon.equal noonAhead = true := by decide +kernel
  have hl : (listSum "item").equal (listSum "element") = true := by decide +kernel
  have hitems : SameItems noon noonAhead := .literal rfl rfl
  have htexts : SameTexts (listSum "item") (listSum "element") :=
    .aggregate _ (.cons (.column 0) .nil) trivial
  have hvalues : ∀ v ∈ (listSum "item").values ++ (listSum "element").values, v.Writable :=
    nofun
  obtain ⟨-, hp⟩ := Expr.interchange hn
  obtain ⟨hf, -, ht⟩ := (Expr.interchange hl).1 hvalues
  refine ⟨⟨hn, fun he => ?_, (hp _ _ (Plan.single_replaced _)).2.1 hitems⟩, hl, fun he => ?_,
    ht htexts _ _ (.not .here), fun s => ?_⟩
  · cases he
  · simp [listSum] at he
  · exact (hf s _ _ .here).mono fun _ _ h => ⟨h.1, h.2 rfl⟩

/-- Truth and one are equal as values, so as literals of one type; neither names, nor texts, nor
messages treat them alike. -/
theorem Expr.equal_truth_one :
    (literal (.bool true) .int64).equal (literal (.int 1) .int64) = true ∧
    field [] (literal (.bool true) .int64) = .ok ⟨"True", .int64, true⟩ ∧
    field [] (literal (.int 1) .int64) = .ok ⟨"1", .int64, true⟩ ∧
    (literal (.bool true) .int64).text = .ok "int64(True)" ∧
    (literal (.int 1) .int64).text = .ok "int64(1)" ∧
    Plan.Replaced (literal (.bool true) .int64) (literal (.int 1) .int64)
      (.single (literal (.bool true) .int64) .int64) (.single (literal (.int 1) .int64) .int64) ∧
    (Wire.encodeRequest (.single (literal (.bool true) .int64) .int64)).toOption ≠
      (Wire.encodeRequest (.single (literal (.int 1) .int64) .int64)).toOption := by
  refine ⟨by decide +kernel, rfl, rfl, rfl, rfl, Plan.single_replaced _, by decide +kernel⟩

end LazyQuery
