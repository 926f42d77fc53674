import LazyQuery.Expr.Field
import LazyQuery.Proofs.Engine.Opening

/-! Tables under other names. What is derived from a schema, and what leaves under it, is the same
but for names; and a stored column that is asked for by its name is found at its own position,
unless the name is one that no column answers to. -/
namespace LazyQuery
open Engine

def Field.renamed (rename : String → String) (f : Field) : Field :=
    { f with name := rename f.name }

def Schema.renamed (rename : String → String) (s : Schema) : Schema :=
    s.map (Field.renamed rename)

def Batch.renamed (rename : String → String) (b : Batch) : Batch where
  schema := b.schema.renamed rename
  rows := b.rows
  columns := b.columns
  width := by rw [Schema.renamed, List.length_map, b.width]
  height := b.height

/-- Everything but the names. -/
def Field.nameless (f : Field) : Field := f.renamed fun _ => ""

def Schema.nameless (s : Schema) : Schema := s.renamed fun _ => ""

def Batch.nameless (b : Batch) : Batch := b.renamed fun _ => ""

theorem Field.nameless_eq {f g : Field} :
    f.nameless = g.nameless ↔ f.type = g.type ∧ f.nullable = g.nullable := by
  simp [nameless, renamed]

theorem Field.store_nameless (f : Field) (c : Cell) : f.nameless.store c = f.store c := by
  cases f
  rw [nameless, renamed, store, store]

theorem Field.isHeld_nameless (f : Field) : f.nameless.isHeld = f.isHeld := by
  cases f
  rw [nameless, renamed, isHeld, isHeld]

namespace Schema
variable {s s' : Schema}

theorem nameless_renamed (rename : String → String) (s : Schema) :
    nameless (s.renamed rename) = s.nameless := by
  rw [nameless, renamed, renamed, List.map_map]
  rfl

theorem renamed_inj {rename : String → String}
    (hr : ∀ f ∈ s, ∀ g ∈ s', rename f.name = rename g.name → f.name = g.name)
    (h : s.renamed rename = s'.renamed rename) : s = s' := by
  induction s generalizing s' with
  | nil => exact (List.map_eq_nil_iff.mp h.symm).symm
  | cons f s ih =>
    obtain ⟨g, t, rfl, hg, ht⟩ := List.map_eq_cons_iff.mp h.symm
    have hname : f.name = g.name :=
      hr f (List.mem_cons_self ..) g (List.mem_cons_self ..) (congrArg Field.name hg).symm
    have hfg : f = g := by
      cases f
      cases g
      cases hname
      cases hg
      rfl
    rw [hfg, ih (fun f hf g hg => hr f (List.mem_cons_of_mem _ hf) g (List.mem_cons_of_mem _ hg))
      ht.symm]

theorem length_nameless (h : s.nameless = s'.nameless) : s.length = s'.length := by
  have hl := congrArg List.length h
  rwa [nameless, nameless, renamed, renamed, List.length_map, List.length_map] at hl

theorem getElem?_nameless (h : s.nameless = s'.nameless) (k : Nat) :
    (s[k]?).map Field.nameless = (s'[k]?).map Field.nameless := by
  rw [← List.getElem?_map, ← List.getElem?_map]
  exact congrArg (fun t : Schema => t[k]?) h

theorem at?_nameless (h : s.nameless = s'.nameless) (i : Int) :
    (s.at? i).map Field.nameless = (s'.at? i).map Field.nameless := by
  rw [at?, at?, length_nameless h]
  cases position? s'.length i with
  | none => rfl
  | some k => exact getElem?_nameless h k

theorem mem_of_at? {i : Int} {f : Field} (h : s.at? i = some f) : f ∈ s := by
  obtain ⟨k, -, hk⟩ := Option.bind_eq_some_iff.mp h
  exact List.mem_of_getElem? hk

end Schema

theorem Batch.nameless_renamed (rename : String → String) (b : Batch) :
    (b.renamed rename).nameless = b.nameless := by
  simp only [nameless, renamed, Batch.mk.injEq, and_self, and_true]
  exact Schema.nameless_renamed rename b.schema

namespace Expr
open Outcome
variable {s s' : Schema}

theorem binaryField_nameless {l l' r r' : Field} (hl : l.nameless = l'.nameless)
    (hr : r.nameless = r'.nameless) (op : String) :
    Follows (fun f f' => f.nameless = f'.nameless) (binaryField op l r) (binaryField op l' r') := by
  obtain ⟨hlt, -⟩ := Field.nameless_eq.mp hl
  obtain ⟨hrt, -⟩ := Field.nameless_eq.mp hr
  rw [binaryField, binaryField, hlt, hrt]
  cases Operator.ofText? op with
  | none => exact .error
  | some o =>
    dsimp only
    split
    · exact .ok rfl
    · split
      · exact .ok rfl
      · exact .ok rfl

mutual
theorem derive_nameless (h : s.nameless = s'.nameless) (e : Expr) :
    Follows (fun f f' => f.nameless = f'.nameless) (derive s e) (derive s' e) := by
  match e with
  | .column i =>
    have hi := Schema.at?_nameless h i
    rw [derive, derive]
    cases hs : s.at? i with
    | none => exact .error
    | some f =>
      rw [hs] at hi
      obtain ⟨f', hf', hf⟩ := Option.map_eq_some_iff.mp hi.symm
      rw [hf']
      exact .ok hf.symm
  | .literal v t => exact .ok rfl
  | .wildcard => exact .error
  | .bare => exact .error
  | .aggregate name args t => exact (deriveAll_nameless h args).bind fun _ _ _ => .ok rfl
  | .binary l op r =>
    exact (derive_nameless h l).bind fun _ _ hl => (derive_nameless h r).bind fun _ _ hr =>
      binaryField_nameless hl hr op
  | .not e => exact (derive_nameless h e).bind fun _ _ _ => .ok rfl
  | .isNull e => exact (derive_nameless h e).bind fun _ _ _ => .ok rfl
  | .isNotNull e => exact (derive_nameless h e).bind fun _ _ _ => .ok rfl
  | .cast e t =>
    exact (derive_nameless h e).bind fun _ _ hf =>
      .ok (Field.nameless_eq.mpr ⟨rfl, (Field.nameless_eq.mp hf).2⟩)
  | .alias e name => exact (derive_nameless h e).bind fun _ _ hf => .ok hf

theorem deriveAll_nameless (h : s.nameless = s'.nameless) (es : List Expr) :
    Follows (fun fs fs' => Schema.nameless fs = Schema.nameless fs') (deriveAll s es)
      (deriveAll s' es) := by
  match es with
  | [] => exact .ok rfl
  | e :: es =>
    exact (derive_nameless h e).bind fun _ _ hf => (deriveAll_nameless h es).bind fun _ _ hfs =>
      .ok (congrArg₂ List.cons hf hfs)
end

theorem field_nameless (h : s.nameless = s'.nameless) (e : Expr) :
    Follows (fun f f' => f.nameless = f'.nameless) (field s e) (field s' e) := by
  rw [field, field, Schema.length_nameless h]
  exact (Follows.refl _).bind fun _ _ _ => derive_nameless h e

theorem fields_nameless (h : s.nameless = s'.nameless) (es : List Expr) :
    Follows (fun fs fs' => Schema.nameless fs = Schema.nameless fs') (fields s es)
    (fields s' es) := by
  rw [fields, fields, Schema.length_nameless h]
  exact (Follows.refl _).bind fun _ _ _ => deriveAll_nameless h es

end Expr

namespace Export
variable {s s' : Schema}

theorem convertAll_nameless (h : s.nameless = s'.nameless) (columns : Chunks) :
    convertAll s columns = convertAll s' columns := by
  induction s generalizing s' columns with
  | nil =>
    obtain rfl := List.map_eq_nil_iff.mp h.symm
    rfl
  | cons f s ih =>
    obtain ⟨f', s', rfl, hf, hs⟩ := List.map_eq_cons_iff.mp h.symm
    obtain ⟨ht, -⟩ := Field.nameless_eq.mp hf
    cases columns with
    | nil => rfl
    | cons c columns => rw [convertAll, convertAll, ih hs.symm, ht]

theorem ofColumns?_nameless (h : s.nameless = s'.nameless) (columns : List (List Cell)) :
    (Batch.ofColumns? s columns).map Batch.nameless = (Batch.ofColumns? s' columns).map
      Batch.nameless := by
  have hl := Schema.length_nameless h
  unfold Batch.ofColumns?
  by_cases hc : columns.length = s'.length ∧
      ∀ c ∈ columns, c.length = (columns.head?.map List.length).getD 0
  · have hc' := hc
    rw [← hl] at hc'
    dsimp only
    rw [dif_pos hc, dif_pos hc', Option.map_some, Option.map_some, Batch.nameless, Batch.nameless,
      Batch.renamed, Batch.renamed]
    congr 2
  · have hc' := hc
    rw [← hl] at hc'
    dsimp only
    rw [dif_neg hc, dif_neg hc']

theorem slices_nameless (h : s.nameless = s'.nameless) (size : Nat) (columns : List (List Cell)) :
    (slices s size columns).map Batch.nameless = (slices s' size columns).map Batch.nameless := by
  simp only [slices, List.map_filterMap, ofColumns?_nameless h]

theorem passages_nameless (h : s.nameless = s'.nameless) (columns : Chunks) :
    passages s columns = passages s' columns := by
  induction s generalizing s' columns with
  | nil =>
    obtain rfl := List.map_eq_nil_iff.mp h.symm
    rfl
  | cons f s ih =>
    obtain ⟨f', s', rfl, hf, hs⟩ := List.map_eq_cons_iff.mp h.symm
    obtain ⟨ht, -⟩ := Field.nameless_eq.mp hf
    cases columns with
    | nil => rfl
    | cons c columns =>
      rw [passages, passages, List.zipWith_cons_cons, List.zipWith_cons_cons, ht]
      exact congrArg _ (ih hs.symm columns)

theorem read_nameless (h : s.nameless = s'.nameless) (size : Nat)
    (chunks : List (List (List Cell))) :
    (read s size chunks).map Batch.nameless = (read s' size chunks).map Batch.nameless := by
  induction chunks with
  | nil => rfl
  | cons chunk rest ih =>
    simp only [read, stretch, apply_ite (List.map Batch.nameless), List.map_append, ih,
      slices_nameless h, ← Option.toList_map, ofColumns?_nameless h]

theorem batches_nameless (h : s.nameless = s'.nameless) (columns : Chunks) (size : Int) :
    Outcome.Follows (fun bs bs' => bs.map Batch.nameless = bs'.map Batch.nameless)
      (batches s columns size) (batches s' columns size) := by
  rw [batches, batches, convertAll_nameless h, passages_nameless h]
  refine (Outcome.Follows.refl _).bind fun converted _ hc => ?_
  subst hc
  refine (Outcome.Follows.refl _).bind fun n _ hn => ?_
  subst hn
  exact .ok (read_nameless h ..)

end Export

namespace Engine
variable {s s' : Schema} {h : Header}

theorem positionalLayout_nameless (hs : s.nameless = s'.nameless) :
    positionalLayout s = positionalLayout s' := by
  have hl : ∀ t : Schema, positionalLayout t = positionalLayout t.nameless := by
    intro t
    apply List.ext_getElem?
    intro k
    simp [positionalLayout, Schema.nameless, Schema.renamed, Field.renamed, Function.comp_def]
  rw [hl s, hl s', hs]

def heldName (i : Nat) (f : Field) : String :=
    if f.name = "" then "column_" ++ toString i else f.name

def heldNames (s : Schema) : List String := s.mapIdx heldName

def isLegible (width : Nat) (name : String) : Bool := name ≠ "" && (name ≠ "*" || width = 1)

theorem heldName_ne_empty (i : Nat) (f : Field) : heldName i f ≠ "" := by
  unfold heldName
  split
  · simp
  · assumption

def heldHeader (s : Schema) : Header := s.mapIdx fun i f => (heldName i f, f.type.stored)

theorem names_heldHeader (s : Schema) : (heldHeader s).map (·.1) = heldNames s := by
  apply List.ext_getElem?
  intro k
  simp [heldHeader, heldNames, Function.comp_def]

theorem types_heldHeader (s : Schema) : (heldHeader s).map (·.2) = s.map (·.type.stored) := by
  apply List.ext_getElem?
  intro k
  simp [heldHeader, Function.comp_def]

theorem storedHeader_eq_ok :
    storedHeader s = .ok h ↔ allHeld s = true ∧ (heldNames s).Nodup ∧ h = heldHeader s := by
  have hh : storedHeader s =
    if !allHeld s then fail .invalidOperation else Header.distinct (heldHeader s) := rfl
  rw [hh, Header.distinct, names_heldHeader]
  cases allHeld s with
  | false => simp [fail]
  | true =>
    by_cases hd : (heldNames s).Nodup
    · simp [hd, eq_comm]
    · simp [hd, fail]

theorem findColumn_star_error (hl : h.length ≠ 1) : ∃ e, findColumn h "*" = .error e := by
  unfold findColumn
  rw [if_pos rfl]
  match h with
  | [] => exact ⟨_, rfl⟩
  | [_] => exact absurd rfl hl
  | _ :: _ :: _ => exact ⟨_, rfl⟩

section asking
variable {k : Nat} {f : Field} {name : String}

theorem findColumn_of_getElem? {t : ColumnType} (hn : (h.map (·.1)).Nodup)
    (hk : h[k]? = some (name, t)) (hs : name ≠ "*") (hp : isPattern name = false) :
    findColumn h name = .ok (k, t) := by
  obtain ⟨hlt, hget⟩ := List.getElem?_eq_some_iff.mp hk
  have hi : h.findIdx? (fun e => decide (e.1 = name)) = some k := by
    refine List.findIdx?_eq_some_iff_getElem.mpr ⟨hlt, by simp [hget], fun j hj hname => ?_⟩
    have hjlt : j < h.length := by omega
    have hjk : (h.map (·.1))[j]? = (h.map (·.1))[k]? := by
      rw [List.getElem?_map, List.getElem?_map, hk, List.getElem?_eq_getElem hjlt]
      simpa using hname
    have hinj : j = k := (List.getElem?_inj (by rwa [List.length_map]) hn).mp hjk
    omega
  unfold findColumn
  rw [if_neg hs, hp, if_neg Bool.false_ne_true, hi]
  simp [hk]

/-- A stored column is found at its position by a name that columns can be asked for by. -/
theorem findColumn_stored (hh : storedHeader s = .ok h) (hk : s[k]? = some f)
    (hf : isLegible s.length f.name = true) (hp : isPattern f.name = false) :
    findColumn h f.name = .ok (k, f.type.stored) := by
  have hname : f.name ≠ "" ∧ (f.name = "*" → s.length = 1) := by
    simpa [isLegible, or_iff_not_imp_left] using hf
  obtain ⟨-, hn, rfl⟩ := storedHeader_eq_ok.mp hh
  by_cases hstar : f.name = "*"
  · obtain ⟨g, rfl⟩ := List.length_eq_one_iff.mp (hname.2 hstar)
    cases k with
    | zero =>
      cases hk
      unfold findColumn
      rw [if_pos hstar]
      rfl
    | succ k => cases hk
  · rw [← names_heldHeader] at hn
    exact findColumn_of_getElem? hn (by simp [heldHeader, hk, heldName, hname.1]) hstar hp

theorem isLegible_of_findColumn (hh : storedHeader s = .ok h) {x : Nat × ColumnType}
    (hx : findColumn h name = .ok x) : isLegible s.length name = true := by
  obtain ⟨-, hn, rfl⟩ := storedHeader_eq_ok.mp hh
  have hempty : name ≠ "" := by
    rintro rfl
    unfold findColumn at hx
    rw [if_neg (by decide), if_neg (by decide), List.findIdx?_eq_none_iff.mpr] at hx
    · cases hx
    · intro e he
      obtain ⟨i, hi, rfl⟩ := List.mem_mapIdx.mp he
      exact decide_eq_false (heldName_ne_empty i _)
  have hstar : name = "*" → s.length = 1 := by
    rintro rfl
    by_contra hl
    obtain ⟨e, he⟩ :=
      findColumn_star_error (h := heldHeader s) (by rwa [heldHeader, List.length_mapIdx])
    rw [he] at hx
    cases hx
  simpa [isLegible, or_iff_not_imp_left] using And.intro hempty hstar

end asking

theorem columnAt?_stored (hh : storedHeader s = .ok h) {i : Int}
    (hf : ∀ f, s.at? i = some f → isLegible s.length f.name = true ∧
      isPattern f.name = false) :
    columnAt? s h i = (s.at? i).bind fun f =>
      (Schema.position? s.length i).map fun k => (k, f.type.stored) := by
  rw [columnAt?]
  cases hi : s.at? i with
  | none => rfl
  | some f =>
    obtain ⟨k, hp, hk⟩ := Option.bind_eq_some_iff.mp hi
    rw [Option.bind_some, Option.bind_some, findColumn_stored hh hk (hf f hi).1 (hf f hi).2, hp]
    rfl

theorem columnAt?_nameless (hs : s.nameless = s'.nameless) {h' : Header}
    (hh : storedHeader s = .ok h) (hh' : storedHeader s' = .ok h') {i : Int}
    (hf : ∀ f, s.at? i = some f → isLegible s.length f.name = true ∧ isPattern f.name = false)
    (hf' : ∀ f, s'.at? i = some f → isLegible s'.length f.name = true ∧
      isPattern f.name = false) :
    columnAt? s h i = columnAt? s' h' i := by
  have hmap : ∀ t : Schema, ((t.at? i).bind fun f =>
      (Schema.position? t.length i).map fun k => (k, f.type.stored)) =
        ((t.at? i).map Field.nameless).bind fun f =>
          (Schema.position? t.length i).map fun k => (k, f.type.stored) := by
    intro t
    rw [Option.bind_map]
    rfl
  rw [columnAt?_stored hh hf, columnAt?_stored hh' hf', hmap s, hmap s', Schema.at?_nameless hs,
    Schema.length_nameless hs]

theorem types_nameless (hs : s.nameless = s'.nameless) :
    (heldHeader s).map (·.2) = (heldHeader s').map (·.2) := by
  have ht : ∀ t : Schema, (heldHeader t).map (·.2) = t.nameless.map (·.type.stored) := by
    intro t
    rw [types_heldHeader, Schema.nameless, Schema.renamed, List.map_map]
    rfl
  rw [ht s, ht s', hs]

theorem allHeld_nameless (hs : s.nameless = s'.nameless) : allHeld s = allHeld s' := by
  have ha : ∀ t : Schema, allHeld t = t.nameless.all Field.isHeld := by
    intro t
    induction t with
    | nil => rw [allHeld]; rfl
    | cons f t ih =>
      rw [allHeld, ih, ← f.isHeld_nameless]
      rfl
  rw [ha s, ha s', hs]

theorem totalRows_nameless {bs cs : List Batch}
    (hb : bs.map Batch.nameless = cs.map Batch.nameless) :
    Batch.totalRows bs = Batch.totalRows cs := by
  have ht : ∀ ds, Batch.totalRows ds = Batch.totalRows (ds.map Batch.nameless) := by
    intro ds
    rw [Batch.totalRows, Batch.totalRows, List.foldl_map]
    rfl
  rw [ht bs, ht cs, hb]

theorem storedColumns_nameless (hs : s.nameless = s'.nameless) {bs cs : List Batch}
    (hb : bs.map Batch.nameless = cs.map Batch.nameless) :
    storedColumns s bs = storedColumns s' cs := by
  have hc : ∀ (t : Schema) ds,
      storedColumns t ds = storedColumns t.nameless (ds.map Batch.nameless) := by
    intro t ds
    have hf : ∀ f : Field, (f.renamed fun _ => "").store = f.store :=
      fun f => funext f.store_nameless
    rw [storedColumns, storedColumns, Schema.nameless, Schema.renamed, List.zipWith_map_left,
      List.length_map, Batch.stack, Batch.stack]
    simp only [List.flatMap_map, hf]
    rfl
  rw [hc s, hc s', hs, hb]

end Engine

/-- A plan that comes to the same as another, and has the same columns at these positions. -/
structure Opened.Resembles (is : List Int) (o o' : Opened) : Prop where
  found : ∀ i ∈ is, columnAt? o.layout o.header i = columnAt? o'.layout o'.header i
  types : o.header.map (·.2) = o'.header.map (·.2)
  run : o.run = o'.run

theorem Opened.Resembles.exported {is : List Int} {o o' : Opened} (h : o.Resembles is o') :
    o.header.map (·.2.exported) = o'.header.map (·.2.exported) := by
  have hmap := congrArg (List.map ColumnType.exported) h.types
  rwa [List.map_map, List.map_map] at hmap

namespace Engine
variable {layout layout' : Schema} {h h' : Header}

/-- Formulas depend on the columns that are got to, and on nothing else of a table. -/
theorem formula?_congr {e : Expr}
    (hf : ∀ i ∈ e.reached, columnAt? layout h i = columnAt? layout' h' i) :
    formula? layout h e = formula? layout' h' e := by
  apply Option.ext
  intro x
  rw [formula?_eq_some, formula?_eq_some]
  exact ⟨fun hd => hd.congr hf, fun hd => hd.congr fun i hi => (hf i hi).symm⟩

theorem formulas?_congr {es : List Expr}
    (hf : ∀ i ∈ es.flatMap Expr.reached, columnAt? layout h i = columnAt? layout' h' i) :
    formulas? layout h es = formulas? layout' h' es := by
  induction es with
  | nil => rfl
  | cons e es ih =>
    rw [List.flatMap_cons] at hf
    rw [formulas?_cons, formulas?_cons, ih fun i hi => hf i (List.mem_append.mpr (.inr hi)),
      formula?_congr fun i hi => hf i (List.mem_append.mpr (.inl hi))]

theorem found_of_formulas? {es : List Expr} {xs : List (Formula × ColumnType)}
    (hx : formulas? layout h es = some xs) :
    ∀ i ∈ es.flatMap Expr.reached, (columnAt? layout h i).isSome = true := by
  intro i hi
  obtain ⟨e, he, hi⟩ := List.mem_flatMap.mp hi
  obtain ⟨x, -, hd⟩ := Outcome.exists_of_forall₂ (formulas?_eq_some.mp hx) he
  exact hd.isSome_find i hi

end Engine
end LazyQuery
