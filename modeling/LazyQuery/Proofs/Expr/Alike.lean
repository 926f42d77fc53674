import LazyQuery.Expr.Equality
import LazyQuery.Expr.Field
import LazyQuery.Expr.Text
import LazyQuery.Proofs.Outcome
import LazyQuery.Wire.Writing

/-! Expressions of one shape. They refer to the same columns, and what is derived from them, their
texts and their messages can differ only as the values and types do that stand in the same places.
Equal expressions are of one shape, with equal values and types. -/
namespace LazyQuery
open Outcome

namespace Expr

/-- Expressions of one shape, with the same names, operators and positions. The values of their
literals are related in pairs, as are the types of their literals and casts, and those that
aggregates declare. -/
inductive Alike (V : Datum → Datum → Prop) (T R : DataType → DataType → Prop) : Expr →
    Expr → Prop
  | column (i : Int) : Alike V T R (.column i) (.column i)
  | literal {v w : Datum} {t u : DataType} : V v w → T t u →
      Alike V T R (.literal v t) (.literal w u)
  | wildcard : Alike V T R .wildcard .wildcard
  | aggregate (name : String) {as bs : List Expr} {t u : DataType} :
    List.Forall₂ (Alike V T R) as bs → R t u →
    Alike V T R (.aggregate name as t) (.aggregate name bs u)
  | binary {l l' r r' : Expr} (op : String) :
    Alike V T R l l' → Alike V T R r r' → Alike V T R (.binary l op r) (.binary l' op r')
  | not {e f : Expr} : Alike V T R e f → Alike V T R (.not e) (.not f)
  | isNull {e f : Expr} : Alike V T R e f → Alike V T R (.isNull e) (.isNull f)
  | isNotNull {e f : Expr} : Alike V T R e f → Alike V T R (.isNotNull e) (.isNotNull f)
  | cast {e f : Expr} {t u : DataType} : Alike V T R e f → T t u →
      Alike V T R (.cast e t) (.cast f u)
  | alias {e f : Expr} (name : String) : Alike V T R e f →
      Alike V T R (.alias e name) (.alias f name)
  | bare : Alike V T R .bare .bare

def SameTypes : Expr → Expr → Prop :=
  Alike (fun _ _ => True) (fun t u => t.equal u = true) (fun t u => t.equal u = true)

/-- The values that the name of the field shows, from left to right. Aliases and aggregates have
names of their own, which show none. -/
def namedValues : Expr → List Datum
  | .literal v _ => [v]
  | .binary l _ r => l.namedValues ++ r.namedValues
  | .not e | .isNull e | .isNotNull e | .cast e _ => e.namedValues
  | .column _ | .wildcard | .aggregate .. | .alias .. | .bare => []

/-- The values that names show have one plain form each. -/
def SameNames (e f : Expr) : Prop :=
  e.namedValues.map Datum.plain = f.namedValues.map Datum.plain

/-- Values in the same places have one exact form, and the types of literals and casts one text. -/
def SameTexts : Expr → Expr → Prop :=
  Alike (fun v w => v.exact = w.exact) (fun t u => t.text = u.text) (fun _ _ => True)

/-- Values in the same places are one item in a message, and types there are the same. -/
def SameItems : Expr → Expr → Prop := Alike (fun v w => Wire.itemOf v = Wire.itemOf w) Eq Eq

mutual
theorem sameTypes_of_equal {a b : Expr} (h : a.equal b = true) : SameTypes a b := by
  cases a with
  | column i =>
    cases b with
    | column j =>
      obtain rfl := of_decide_eq_true h
      exact .column i
    | _ => cases h
  | literal v t =>
    cases b with
    | literal w u =>
      obtain ⟨-, ht⟩ := Bool.and_eq_true_iff.mp h
      exact .literal trivial ht
    | _ => cases h
  | wildcard =>
    cases b with
    | wildcard => exact .wildcard
    | _ => cases h
  | aggregate m as t =>
    cases b with
    | aggregate n bs u =>
      obtain ⟨h, ht⟩ := Bool.and_eq_true_iff.mp h
      obtain ⟨hm, has⟩ := Bool.and_eq_true_iff.mp h
      obtain rfl := of_decide_eq_true hm
      exact .aggregate m (sameTypes_of_equalAll has) ht
    | _ => cases h
  | binary l o r =>
    cases b with
    | binary l' o' r' =>
      obtain ⟨h, hr⟩ := Bool.and_eq_true_iff.mp h
      obtain ⟨hl, ho⟩ := Bool.and_eq_true_iff.mp h
      obtain rfl := of_decide_eq_true ho
      exact .binary o (sameTypes_of_equal hl) (sameTypes_of_equal hr)
    | _ => cases h
  | not e =>
    cases b with
    | not f => exact .not (sameTypes_of_equal (a := e) h)
    | _ => cases h
  | isNull e =>
    cases b with
    | isNull f => exact .isNull (sameTypes_of_equal (a := e) h)
    | _ => cases h
  | isNotNull e =>
    cases b with
    | isNotNull f => exact .isNotNull (sameTypes_of_equal (a := e) h)
    | _ => cases h
  | cast e t =>
    cases b with
    | cast f u =>
      obtain ⟨he, ht⟩ := Bool.and_eq_true_iff.mp h
      exact .cast (sameTypes_of_equal he) ht
    | _ => cases h
  | «alias» e m =>
    cases b with
    | «alias» f n =>
      obtain ⟨he, hm⟩ := Bool.and_eq_true_iff.mp h
      obtain rfl := of_decide_eq_true hm
      exact .alias m (sameTypes_of_equal he)
    | _ => cases h
  | bare =>
    cases b with
    | bare => exact .bare
    | _ => cases h

theorem sameTypes_of_equalAll {as bs : List Expr} (h : equalAll as bs = true) :
    List.Forall₂ SameTypes as bs := by
  cases as with
  | nil =>
    cases bs with
    | nil => exact .nil
    | cons b bs => cases h
  | cons a as =>
    cases bs with
    | nil => cases h
    | cons b bs =>
      obtain ⟨hab, has⟩ := Bool.and_eq_true_iff.mp h
      exact .cons (sameTypes_of_equal hab) (sameTypes_of_equalAll has)
end

section alike
variable {V : Datum → Datum → Prop} {T R : DataType → DataType → Prop}

mutual
theorem alike_self (hV : ∀ v, V v v) (hT : ∀ t, T t t) (hR : ∀ t, R t t) (e : Expr) :
    Alike V T R e e := by
  cases e with
  | column i => exact .column i
  | literal v t => exact .literal (hV v) (hT t)
  | wildcard => exact .wildcard
  | aggregate name args t => exact .aggregate name (alike_same hV hT hR args) (hR t)
  | binary l op r => exact .binary op (alike_self hV hT hR l) (alike_self hV hT hR r)
  | not e => exact .not (alike_self hV hT hR e)
  | isNull e => exact .isNull (alike_self hV hT hR e)
  | isNotNull e => exact .isNotNull (alike_self hV hT hR e)
  | cast e t => exact .cast (alike_self hV hT hR e) (hT t)
  | «alias» e name => exact .alias name (alike_self hV hT hR e)
  | bare => exact .bare

theorem alike_same (hV : ∀ v, V v v) (hT : ∀ t, T t t) (hR : ∀ t, R t t) (es : List Expr) :
    List.Forall₂ (Alike V T R) es es := by
  cases es with
  | nil => exact .nil
  | cons e es => exact .cons (alike_self hV hT hR e) (alike_same hV hT hR es)
end

mutual
/-- Alike expressions refer to the same columns and have wildcards in the same places. -/
theorem references_alike {e f : Expr} (h : Alike V T R e f) :
    e.columns = f.columns ∧ e.hasWildcard = f.hasWildcard := by
  cases h with
  | column i => exact ⟨rfl, rfl⟩
  | literal hv ht => exact ⟨rfl, rfl⟩
  | wildcard => exact ⟨rfl, rfl⟩
  | aggregate name has ht => exact references_alikes has
  | binary op hl hr =>
    obtain ⟨hlc, hlw⟩ := references_alike hl
    obtain ⟨hrc, hrw⟩ := references_alike hr
    exact ⟨by rw [columns, columns, hlc, hrc], by rw [hasWildcard, hasWildcard, hlw, hrw]⟩
  | not he | isNull he | isNotNull he | cast he _ | «alias» _ he =>
    obtain ⟨hc, hw⟩ := references_alike he
    exact ⟨by rw [columns, columns, hc], by rw [hasWildcard, hasWildcard, hw]⟩
  | bare => exact ⟨rfl, rfl⟩

theorem references_alikes {es fs : List Expr} (h : List.Forall₂ (Alike V T R) es fs) :
    columnsOfAll es = columnsOfAll fs ∧ anyWildcard es = anyWildcard fs := by
  cases h with
  | nil => exact ⟨rfl, rfl⟩
  | cons he hes =>
    obtain ⟨hc, hw⟩ := references_alike he
    obtain ⟨hcs, hws⟩ := references_alikes hes
    exact ⟨by rw [columnsOfAll, columnsOfAll, hc, hcs], by rw [anyWildcard, anyWildcard, hw,
      hws]⟩
end

theorem checkReferences_alike {es fs : List Expr} (n : Nat)
    (h : List.Forall₂ (Alike V T R) es fs) :
    checkReferences n es = checkReferences n fs := by
  obtain ⟨hc, hw⟩ := references_alikes h
  rw [columnsOfAll_eq_flatMap, columnsOfAll_eq_flatMap] at hc
  rw [anyWildcard_eq_any, anyWildcard_eq_any] at hw
  rw [checkReferences, checkReferences, outOfRange, outOfRange, hc, hw]

theorem isWildcard_alike {e f : Expr} (h : Alike V T R e f) : e.isWildcard = f.isWildcard := by
  cases h <;> rfl

end alike

section fields
variable {s : Schema}

/-- Fields of equal types, of which both can have nulls or neither. Their names are their own. -/
def Akin (x y : Field) : Prop := x.type.equal y.type = true ∧ x.nullable = y.nullable

theorem akin_self (x : Field) : Akin x x := ⟨x.type.equal_self, rfl⟩

theorem related_binaryField (op : String) {l l' r r' : Field} (hl : Akin l l') (hr : Akin r r') :
    Related Akin (binaryField op l r) (binaryField op l' r') := by
  rw [binaryField, binaryField, DataType.isFloating_eq_of_equal hl.1,
    DataType.isFloating_eq_of_equal hr.1]
  cases Operator.ofText? op with
  | none => exact .error _
  | some o =>
    dsimp only
    split
    · exact .ok ⟨rfl, rfl⟩
    split
    · exact .ok ⟨rfl, rfl⟩
    · exact .ok ⟨hl.1, rfl⟩

theorem related_deriveAll_of {P : Field → Field → Prop} {es fs : List Expr}
    (h : List.Forall₂ (fun e f => Related P (derive s e) (derive s f)) es fs) :
    Related (List.Forall₂ P) (deriveAll s es) (deriveAll s fs) := by
  induction h with
  | nil => exact .ok .nil
  | cons he _ ih =>
    refine he.bind fun _ _ h => ?_
    exact ih.bind fun _ _ hs => .ok (.cons h hs)

mutual
/-- With equal types in the same places, expressions of one shape fail alike or have fields of equal
types, whatever their values are. -/
theorem related_derive {e f : Expr} (h : SameTypes e f) :
    Related Akin (derive s e) (derive s f) := by
  cases h with
  | column i => exact .refl akin_self _
  | literal _ ht => exact .ok ⟨ht, rfl⟩
  | wildcard => exact .error _
  | aggregate name has ht =>
    exact (related_deriveAll_of (related_derives has)).bind fun _ _ _ => .ok ⟨ht, rfl⟩
  | binary op hl hr =>
    refine (related_derive hl).bind fun _ _ hl => ?_
    exact (related_derive hr).bind fun _ _ hr => related_binaryField op hl hr
  | not he => exact (related_derive he).bind fun _ _ _ => .ok ⟨rfl, rfl⟩
  | isNull he => exact (related_derive he).bind fun _ _ _ => .ok ⟨rfl, rfl⟩
  | isNotNull he => exact (related_derive he).bind fun _ _ _ => .ok ⟨rfl, rfl⟩
  | cast he ht => exact (related_derive he).bind fun _ _ h => .ok ⟨ht, h.2⟩
  | «alias» name he => exact (related_derive he).bind fun _ _ h => .ok h
  | bare => exact .error _

theorem related_derives {es fs : List Expr} (h : List.Forall₂ SameTypes es fs) :
    List.Forall₂ (fun e f => Related Akin (derive s e) (derive s f)) es fs := by
  cases h with
  | nil => exact .nil
  | cons he hes => exact .cons (related_derive he) (related_derives hes)
end

theorem name_binaryField {op : String} {l r x : Field} (h : binaryField op l r = .ok x) :
    x.name = l.name ++ " " ++ op ++ " " ++ r.name := by
  unfold binaryField at h
  dsimp only at h
  split at h
  · cases h
  split at h
  · cases h
    rfl
  split at h
  · cases h
    rfl
  · cases h
    rfl

theorem length_namedValues {V : Datum → Datum → Prop} {T R : DataType → DataType → Prop}
    {e f : Expr} (h : Alike V T R e f) : e.namedValues.length = f.namedValues.length := by
  cases h with
  | binary _ hl hr =>
    rw [namedValues, namedValues, List.length_append, List.length_append, length_namedValues hl,
      length_namedValues hr]
  | not he | isNull he | isNotNull he | cast he _ =>
    have hl := length_namedValues he
    exact hl
  | _ => rfl

/-- Expressions of one shape have fields of one name if the values have one plain
form that it shows. -/
theorem name_derive {V : Datum → Datum → Prop} {T R : DataType → DataType → Prop}
    {e f : Expr} {x y : Field} (h : Alike V T R e f) (hn : SameNames e f) (hx : derive s e = .ok x)
    (hy : derive s f = .ok y) : x.name = y.name := by
  cases h with
  | column i =>
    obtain rfl := Except.ok.inj (hx.symm.trans hy)
    rfl
  | literal _ _ =>
    cases hx
    cases hy
    exact (List.cons.inj hn).1
  | wildcard => cases hx
  | aggregate name _ _ =>
    obtain ⟨_, -, hx⟩ := bind_eq_ok.mp hx
    obtain ⟨_, -, hy⟩ := bind_eq_ok.mp hy
    cases hx
    cases hy
    rfl
  | binary op hl hr =>
    obtain ⟨_, hlx, hx⟩ := bind_eq_ok.mp hx
    obtain ⟨_, hrx, hx⟩ := bind_eq_ok.mp hx
    obtain ⟨_, hly, hy⟩ := bind_eq_ok.mp hy
    obtain ⟨_, hry, hy⟩ := bind_eq_ok.mp hy
    rw [SameNames, namedValues, namedValues, List.map_append, List.map_append] at hn
    -- the values on the left end in the same place
    have hlen := length_namedValues hl
    obtain ⟨hnl, hnr⟩ := List.append_inj hn (by rw [List.length_map, List.length_map, hlen])
    rw [name_binaryField hx, name_binaryField hy, name_derive hl hnl hlx hly,
      name_derive hr hnr hrx hry]
  | not he | isNull he | isNotNull he | cast he _ =>
    obtain ⟨_, hex, hx⟩ := bind_eq_ok.mp hx
    obtain ⟨_, hey, hy⟩ := bind_eq_ok.mp hy
    have hi := name_derive he hn hex hey
    cases hx
    cases hy
    simp only [hi]
  | «alias» name _ =>
    obtain ⟨_, -, hx⟩ := bind_eq_ok.mp hx
    obtain ⟨_, -, hy⟩ := bind_eq_ok.mp hy
    cases hx
    cases hy
    rfl
  | bare => cases hx

end fields

mutual
/-- The short form shows values in their exact form and the types of literals and casts. -/
theorem text_alike {e f : Expr} (h : SameTexts e f) : e.text = f.text := by
  cases h with
  | column i => rfl
  | literal hv ht => rw [text, text, hv, ht]
  | wildcard => rfl
  | aggregate name has _ => rw [text, text, texts_alike has]
  | binary op hl hr => rw [text, text, text_alike hl, text_alike hr]
  | not he => rw [text, text, text_alike he]
  | isNull he => rw [text, text, text_alike he]
  | isNotNull he => rw [text, text, text_alike he]
  | cast he ht => rw [text, text, text_alike he, ht]
  | «alias» name he => rw [text, text, text_alike he]
  | bare => rfl

theorem texts_alike {es fs : List Expr} (h : List.Forall₂ SameTexts es fs) :
    texts es = texts fs := by
  cases h with
  | nil => rfl
  | cons he hes => rw [texts, texts, text_alike he, texts_alike hes]
end

end Expr

namespace Wire
open LazyQuery.Expr

theorem members_of_node {key kind : String} {ms ns : List (String × Item)}
    (h : node key kind ms = node key kind ns) : ms.map Prod.snd = ns.map Prod.snd := by
  have hm := congrArg (List.map Prod.snd) (List.cons.inj (Item.map.inj h)).2
  rwa [List.map_map, List.map_map] at hm

/-- A node whose first member is computed is the same only if that computation has the same result,
and if its other members are the same. -/
theorem first_of_node {x y : Outcome Item} {kind name : String} {ms ns : List (String × Item)}
    {i : Item} (hx : (x >>= fun j => .ok (exprNode kind ((name, j) :: ms))) = .ok i)
    (hy : (y >>= fun j => .ok (exprNode kind ((name, j) :: ns))) = .ok i) :
    ∃ j, x = .ok j ∧ y = .ok j ∧ ms.map Prod.snd = ns.map Prod.snd := by
  obtain ⟨j, hj, hx⟩ := bind_eq_ok.mp hx
  obtain ⟨k, hk, hy⟩ := bind_eq_ok.mp hy
  obtain ⟨rfl, hm⟩ := List.cons.inj (members_of_node (Except.ok.inj (hx.trans hy.symm)))
  exact ⟨j, hj, hk, hm⟩

mutual
theorem exprItem_alike {e f : Expr} (h : SameItems e f) : exprItem e = exprItem f := by
  cases h with
  | column i => rfl
  | literal hv ht => rw [exprItem, exprItem, literalItem, literalItem, hv, ht]
  | wildcard => rfl
  | aggregate name has ht => rw [exprItem, exprItem, exprItems_alike has, ht]
  | binary op hl hr => rw [exprItem, exprItem, exprItem_alike hl, exprItem_alike hr]
  | not he => rw [exprItem, exprItem, exprItem_alike he]
  | isNull he => rw [exprItem, exprItem, exprItem_alike he]
  | isNotNull he => rw [exprItem, exprItem, exprItem_alike he]
  | cast he ht => rw [exprItem, exprItem, exprItem_alike he, ht]
  | «alias» name he => rw [exprItem, exprItem, exprItem_alike he]
  | bare => rfl

theorem exprItems_alike {es fs : List Expr} (h : List.Forall₂ SameItems es fs) :
    exprItems es = exprItems fs := by
  cases h with
  | nil => rfl
  | cons he hes => rw [exprItems, exprItems, exprItem_alike he, exprItems_alike hes]
end

section converse
variable {V : Datum → Datum → Prop} {T R : DataType → DataType → Prop}

mutual
theorem sameItems_of_exprItem {e f : Expr} {i : Item} (h : Alike V T R e f)
    (he : exprItem e = .ok i) (hf : exprItem f = .ok i) : SameItems e f := by
  cases h with
  | column i => exact .column i
  | literal _ _ =>
    obtain ⟨j, hv, hw, hm⟩ := first_of_node he hf
    exact .literal (hv.trans hw.symm) (by simpa using hm)
  | wildcard => exact .wildcard
  | aggregate name has _ =>
    obtain ⟨is, his, he⟩ := bind_eq_ok.mp he
    obtain ⟨js, hjs, hf⟩ := bind_eq_ok.mp hf
    have hm := members_of_node (Except.ok.inj (he.trans hf.symm))
    obtain ⟨rfl, ht⟩ : is = js ∧ _ = _ := by simpa using hm
    exact .aggregate name (sameItems_of_exprItems has his hjs) ht
  | binary op hl hr =>
    obtain ⟨il, hil, he⟩ := bind_eq_ok.mp he
    obtain ⟨ir, hir, he⟩ := bind_eq_ok.mp he
    obtain ⟨jl, hjl, hf⟩ := bind_eq_ok.mp hf
    obtain ⟨jr, hjr, hf⟩ := bind_eq_ok.mp hf
    have hm := members_of_node (Except.ok.inj (he.trans hf.symm))
    obtain ⟨rfl, rfl⟩ : il = jl ∧ ir = jr := by simpa using hm
    exact .binary op (sameItems_of_exprItem hl hil hjl) (sameItems_of_exprItem hr hir hjr)
  | not h =>
    obtain ⟨j, hi, hj, -⟩ := first_of_node he hf
    exact .not (sameItems_of_exprItem h hi hj)
  | isNull h =>
    obtain ⟨j, hi, hj, -⟩ := first_of_node he hf
    exact .isNull (sameItems_of_exprItem h hi hj)
  | isNotNull h =>
    obtain ⟨j, hi, hj, -⟩ := first_of_node he hf
    exact .isNotNull (sameItems_of_exprItem h hi hj)
  | cast h _ =>
    obtain ⟨j, hi, hj, hm⟩ := first_of_node he hf
    exact .cast (sameItems_of_exprItem h hi hj) (by simpa using hm)
  | «alias» name h =>
    obtain ⟨j, hi, hj, -⟩ := first_of_node he hf
    exact .alias name (sameItems_of_exprItem h hi hj)
  | bare => exact .bare

theorem sameItems_of_exprItems {es fs : List Expr} {is : List Item}
    (h : List.Forall₂ (Alike V T R) es fs) (he : exprItems es = .ok is)
    (hf : exprItems fs = .ok is) :
    List.Forall₂ SameItems es fs := by
  cases h with
  | nil => exact .nil
  | cons h hs =>
    obtain ⟨i, hi, he⟩ := bind_eq_ok.mp he
    obtain ⟨is', his, he⟩ := bind_eq_ok.mp he
    obtain ⟨j, hj, hf⟩ := bind_eq_ok.mp hf
    obtain ⟨js, hjs, hf⟩ := bind_eq_ok.mp hf
    obtain ⟨rfl, rfl⟩ := List.cons.inj (Except.ok.inj (he.trans hf.symm))
    exact .cons (sameItems_of_exprItem h hi hj) (sameItems_of_exprItems hs his hjs)
end

end converse
end Wire
end LazyQuery
