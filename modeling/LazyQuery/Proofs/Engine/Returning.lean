import LazyQuery.Proofs.Engine.Leaving
import LazyQuery.Proofs.Engine.TypeMapping

/-! Cells on their way into the engine and out again. What is stored leaves as the type that it is
held as, and is converted to its own type from there. Every type of the mapping has that conversion;
a cell comes back as it was unless its count of a unit is no count of a smaller unit in 64 bits, or
a moment is no day. -/
namespace LazyQuery
open Engine

def Leaf.restores : Leaf → Int → Bool
  | .timestamp .second _, i | .duration .second, i => IntegerType.int64.holds (i * 1000)
  | .time32 u, i | .time64 u, i => IntegerType.int64.holds (i * (1000000000 / u.perSecond))
  | .date64, i => i % 86400000 = 0
  | _, _ => true

mutual
def DataType.restores : DataType → Cell → Bool
  | .leaf k, .int i => k.restores i
  | .list f, .list cs | .largeList f, .list cs => cs.all f.restores
  | .struct fs, .struct cs => membersRestore fs cs
  | _, _ => true

def Field.restores : Field → Cell → Bool
  | ⟨_, t, _⟩, c => t.restores c

def membersRestore : List Field → List Cell → Bool
  | ⟨_, t, _⟩ :: fs, c :: cs => t.restores c && membersRestore fs cs
  | _, _ => true
end

mutual
/-- Structs in the cell have a cell for each of their members. -/
def DataType.shapes : DataType → Cell → Bool
  | .list f, .list cs | .largeList f, .list cs => cs.all f.shapes
  | .struct fs, .struct cs => membersShape fs cs
  | _, _ => true

def Field.shapes : Field → Cell → Bool
  | ⟨_, t, _⟩, c => t.shapes c

def membersShape : List Field → List Cell → Bool
  | [], [] => true
  | ⟨_, t, _⟩ :: fs, c :: cs => t.shapes c && membersShape fs cs
  | _, _ => false
end

def DataType.returned (t : DataType) : DataType := t.stored.exported

theorem holds_int64 (i : Int) :
    IntegerType.int64.holds i = true ↔ -2 ^ 63 ≤ i ∧ i ≤ 2 ^ 63 - 1 := by
  rw [IntegerType.holds, Bool.and_eq_true, decide_eq_true_eq, decide_eq_true_eq]
  exact Iff.rfl

theorem bmod_eq_self_iff (i : Int) : i.bmod (2 ^ 64) = i ↔ IntegerType.int64.holds i = true := by
  rw [holds_int64, Int.bmod]
  split <;> omega

/-- Smaller units are as many of the greater as they were made of, if they are
counted in 64 bits. -/
theorem rescaled_times {u v : TimeUnit} {n : Int} (hv : 0 < v.perSecond)
    (hu : u.perSecond = v.perSecond * n) (hn : 0 < n) (i : Int) :
    rescaled u v ((i * n).bmod (2 ^ 64)) = .ok (.int i) ↔
    IntegerType.int64.holds (i * n) = true := by
  rw [← bmod_eq_self_iff, rescaled, hu]
  generalize (i * n).bmod (2 ^ 64) = j
  rw [Int.mul_comm j, Int.mul_emod_mul_of_pos _ _ hv, Int.mul_ediv_mul_of_pos _ _ hv]
  have hj := Int.emod_add_mul_ediv j n
  constructor
  · intro h
    split at h
    · rename_i hd
      cases h
      have hr : j % n = 0 := (Int.mul_eq_zero.mp hd).resolve_left (Int.ne_of_gt hv)
      rw [hr, Int.zero_add, Int.mul_comm] at hj
      exact hj.symm
    · cases h
  · rintro rfl
    rw [Int.mul_emod_left, Int.mul_zero, if_pos rfl, Int.mul_ediv_cancel _ (Int.ne_of_gt hn)]

theorem floored_iff (i : Int) :
    (Except.ok (.int (i / 86400000 * 86400000)) : Outcome Cell) = .ok (.int i) ↔
    i % 86400000 = 0 := by
  rw [Except.ok.injEq, Cell.int.injEq]
  omega

namespace Leaf

/-- The conversion of what is stored of a leaf gives the cell back exactly if the
leaf restores it. -/
def Inverts (k : Leaf) (f : Converter) : Prop :=
  ∀ c, f ((DataType.leaf k).store c) = .ok c ↔ (DataType.leaf k).restores c = true

theorem inverts_ok {k : Leaf} (hs : ∀ c, (DataType.leaf k).store c = c)
    (hr : ∀ i, k.restores i = true) : k.Inverts .ok := by
  intro c
  rw [hs]
  cases c <;> simp [DataType.restores, hr]

theorem inverts_rescaled {k : Leaf} {u v : TimeUnit} {n : Int} (hv : 0 < v.perSecond)
    (hu : u.perSecond = v.perSecond * n) (hn : 0 < n)
    (hs : ∀ c, (DataType.leaf k).store c = c.times n)
    (hr : ∀ i, k.restores i = IntegerType.int64.holds (i * n)) :
      k.Inverts (.ofInt (rescaled u v)) := by
  intro c
  rw [hs]
  cases c with
  | int i =>
    rw [DataType.restores, hr]
    exact rescaled_times hv hu hn i
  | _ => simp [Cell.times, Converter.ofInt, DataType.restores]

theorem converter_self (k : Leaf) : k.converter k = .ok .ok := by
  unfold converter
  exact if_pos (by simp)

theorem converter_leaf_self (k : Leaf) : (DataType.leaf k).converter (.leaf k) = .ok .ok := by
  cases k with
  | null => rfl
  | _ => exact converter_self _

theorem inverts_of_returned_eq {k : Leaf} (hk : (DataType.leaf k).returned = .leaf k)
    (hs : ∀ c, (DataType.leaf k).store c = c) (hr : ∀ i, k.restores i = true) :
    ∃ f, (DataType.leaf k).returned.converter (.leaf k) = .ok f ∧ k.Inverts f :=
  ⟨.ok, hk.symm ▸ converter_leaf_self k, inverts_ok hs hr⟩

theorem exists_inverts {k : Leaf} {t : ColumnType} (h : k.column? = some t) :
    ∃ f, (DataType.leaf k).returned.converter (.leaf k) = .ok f ∧ k.Inverts f := by
  cases k with
  | integer k => exact inverts_of_returned_eq rfl (fun c => by simp [DataType.store]) fun _ => rfl
  | timestamp u z =>
    cases u with
    | second =>
      have hf : (timestamp .milli z).converter (.timestamp .second z) =
        .ok (.ofInt (rescaled .milli .second)) :=
        by simp [converter, isText, isDecimal, timeConverter]
      refine ⟨_, hf, ?_⟩
      exact inverts_rescaled (by decide) rfl (by decide) (fun c => by rw [DataType.store]) fun _ =>
        rfl
    | _ => exact inverts_of_returned_eq rfl (fun c => by simp [DataType.store]) fun _ => rfl
  | duration u =>
    cases u with
    | second =>
      have hf : (duration .milli).converter (.duration .second) =
        .ok (.ofInt (rescaled .milli .second)) := rfl
      refine ⟨_, hf, ?_⟩
      exact inverts_rescaled (by decide) rfl (by decide) (fun c => by rw [DataType.store]) fun _ =>
        rfl
    | _ => exact inverts_of_returned_eq rfl (fun c => by simp [DataType.store]) fun _ => rfl
  | time32 u =>
    have hf : (time64 .nano).converter (.time32 u) = .ok (.ofInt (rescaled .nano u)) := rfl
    refine ⟨_, hf, ?_⟩
    cases u <;>
      exact inverts_rescaled (by decide) rfl (by decide) (fun c => by rw [DataType.store]) fun _ =>
        rfl
  | time64 u =>
    by_cases hu : u = .nano
    · subst hu
      refine ⟨.ok, converter_self _, fun c => ?_⟩
      cases c with
      | int i =>
        have hone : (DataType.leaf (.time64 .nano)).store (.int i) =
            .int ((i * 1).bmod (2 ^ 64)) := by
          rw [DataType.store]
          rfl
        rw [hone, Int.mul_one, Except.ok.injEq, Cell.int.injEq, bmod_eq_self_iff]
        simp [DataType.restores, restores, TimeUnit.perSecond]
      | _ => simp [DataType.store, Cell.times, DataType.restores]
    · have hf : (time64 .nano).converter (.time64 u) = .ok (.ofInt (rescaled .nano u)) := by
        simp [converter, isText, isDecimal, timeConverter, Ne.symm hu]
      refine ⟨_, hf, ?_⟩
      cases u with
      | nano => exact absurd rfl hu
      | _ =>
        exact inverts_rescaled (by decide) rfl (by decide) (fun c => by rw [DataType.store])
          fun _ => rfl
  | date64 =>
    have hf : (timestamp .milli none).converter .date64 =
      .ok (.ofInt fun i => .ok (.int (i / 86400000 * 86400000))) := rfl
    refine ⟨_, hf, fun c => ?_⟩
    cases c with
    | int i =>
      rw [DataType.restores, restores, decide_eq_true_eq, ← floored_iff]
      rfl
    | _ => simp [DataType.store, Converter.ofInt, DataType.restores]
  | _ =>
    first
    | exact inverts_of_returned_eq rfl (fun c => by simp [DataType.store]) fun _ => rfl
    | exact ⟨.ok, rfl, inverts_ok (fun c => by simp [DataType.store]) fun _ => rfl⟩
    | cases h

theorem exists_column? {k : Leaf} {u : ColumnType} (h : (DataType.leaf k).column = .ok u) :
    ∃ t, k.column? = some t := by
  rw [DataType.column] at h
  cases hk : k.column? with
  | none =>
    rw [hk] at h
    cases h
  | some t => exact ⟨t, rfl⟩

end Leaf

theorem Cell.isNull_times (n : Int) (c : Cell) : (c.times n).isNull = c.isNull := by
  cases c <;> rfl

theorem Cell.eq_null_of_isNull {c : Cell} (h : c.isNull = true) : c = .null := by
  cases c <;> first | rfl | cases h

theorem DataType.isNull_store (t : DataType) (c : Cell) : (t.store c).isNull = c.isNull := by
  match t with
  | .leaf k =>
    unfold DataType.store
    split <;> simp_all [Cell.isNull_times]
  | .list f | .largeList f | .fixedList f _ | .struct fs | .map k v =>
    cases c <;> simp [DataType.store, Cell.isNull]
  | .dictionary _ v =>
    rw [DataType.store]
    exact DataType.isNull_store v c

theorem DataType.store_null (t : DataType) : t.store .null = .null :=
  Cell.eq_null_of_isNull (t.isNull_store .null)

theorem DataType.restores_null (t : DataType) : t.restores .null = true := by
  cases t <;> simp [restores]

/-- The conversion of what is stored of a type gives back exactly the cells that
the type restores. -/
def DataType.Inverts (t : DataType) (f : Converter) : Prop :=
  ∀ c, t.shapes c = true → c.isNull = false → (f (t.store c) = .ok c ↔ t.restores c = true)

namespace DataType
variable {t : DataType} {f : Field} {g : Converter} {c : Cell} {cs : List Cell}

/-- A missing cell comes back by itself, any other by the conversion. -/
theorem Inverts.present (h : t.Inverts g) (hs : t.shapes c = true) :
    (if (t.store c).isNull then .ok (t.store c) else g (t.store c)) = .ok c ↔
    t.restores c = true := by
  rw [isNull_store]
  cases hc : c.isNull with
  | true =>
    obtain rfl := Cell.eq_null_of_isNull hc
    simp [store_null, restores_null]
  | false => exact h c hs hc

theorem Inverts.members (h : t.Inverts g) (hs : ∀ c ∈ cs, t.shapes c = true) :
    Converter.members g (.list (cs.map t.store)) = .ok (.list cs) ↔
    ∀ c ∈ cs, t.restores c = true := by
  have hm : Converter.members g (.list (cs.map t.store)) = .ok (.list cs) ↔
      (cs.map t.store).mapM (fun c => if c.isNull then .ok c else g c) = .ok cs := by
    rw [Converter.members]
    constructor
    · intro h
      obtain ⟨out, hout, h⟩ := Outcome.bind_eq_ok.mp h
      cases h
      exact hout
    · intro h
      rw [h]
      rfl
  rw [hm, Outcome.mapM_eq_ok, List.forall₂_map_left_iff, List.forall₂_same]
  exact forall₂_congr fun c hc => h.present (hs c hc)

end DataType

def tagged : Nat → List Field → List Converter → List NamedConverter
  | i, f :: fs, g :: gs => (i, f.name, some g) :: tagged (i + 1) fs gs
  | _, _, _ => []

def inPlace : Nat → List Converter → List (Option (Nat × Converter))
  | i, g :: gs => some (i, g) :: inPlace (i + 1) gs
  | _, [] => []

section members
variable {fs : List Field} {gs : List Converter}

/-- Members that come in the order of the fields stay in their places, whatever their names. -/
theorem arrangement_tagged (i : Nat) (h : gs.length = fs.length) :
    arrangement (tagged i fs gs) fs = .ok (inPlace i gs) := by
  induction fs generalizing gs i with
  | nil =>
    obtain rfl := List.length_eq_zero_iff.mp h
    rfl
  | cons f fs ih =>
    obtain ⟨g, gs, rfl⟩ := List.exists_cons_of_length_eq_add_one h
    rw [tagged, arrangement, List.find?_cons_of_pos (by simp), List.eraseP_cons_of_pos (by simp)]
    dsimp only
    rw [ih _ (by simpa using h)]
    rfl

theorem picked_inPlace (h : List.Forall₂ (fun f g => f.type.Inverts g) fs gs) (front : List Cell)
    {cs : List Cell} (hs : membersShape fs cs = true) :
    List.Forall₂ (fun p c => Converter.picked (front ++ storeMembers fs cs) p = .ok c)
      (inPlace front.length gs) cs ↔ membersRestore fs cs = true := by
  induction h generalizing front cs with
  | nil =>
    cases cs with
    | nil => simp [inPlace, membersRestore]
    | cons c cs => simp [membersShape] at hs
  | @cons f g fs gs hg _ ih =>
    obtain ⟨name, t, nullable⟩ := f
    cases cs with
    | nil => simp [membersShape] at hs
    | cons c cs =>
      rw [membersShape, Bool.and_eq_true] at hs
      have hfront : front ++ t.store c :: storeMembers fs cs =
        (front ++ [t.store c]) ++ storeMembers fs cs := by simp
      have hhead : Converter.picked (front ++ t.store c :: storeMembers fs cs)
          (some (front.length, g)) =
          if (t.store c).isNull then .ok (t.store c) else g (t.store c) := by
        simp [Converter.picked]
      have ih := ih (front ++ [t.store c]) hs.2
      rw [List.length_append, List.length_singleton] at ih
      rw [storeMembers, membersRestore, inPlace, List.forall₂_cons, hhead, hg.present hs.1,
        hfront, ih, Bool.and_eq_true]

end members

mutual
theorem DataType.exists_inverts {t : DataType} {u : ColumnType} (h : t.column = .ok u) :
    ∃ f, t.returned.converter t = .ok f ∧ t.Inverts f := by
  match t with
  | .leaf k =>
    obtain ⟨u, hk⟩ := Leaf.exists_column? h
    obtain ⟨f, hf, hi⟩ := Leaf.exists_inverts hk
    exact ⟨f, hf, fun c _ _ => hi c⟩
  | .list ⟨name, t, nullable⟩ | .largeList ⟨name, t, nullable⟩ =>
    rw [DataType.column] at h
    obtain ⟨u, hu, -⟩ := Outcome.bind_eq_ok.mp h
    rw [Field.column] at hu
    obtain ⟨g, hg, hi⟩ := DataType.exists_inverts hu
    refine ⟨.members g, ?_, fun c hs _ => ?_⟩
    · rw [DataType.returned] at hg
      rw [DataType.returned, DataType.stored, Field.stored, ColumnType.exported, DataType.converter,
        Field.item, Field.listConverter]
      dsimp only
      rw [hg]
      rfl
    · cases c with
      | list cs =>
        rw [DataType.shapes, List.all_eq_true] at hs
        rw [DataType.store, DataType.restores, List.all_eq_true]
        exact hi.members hs
      | _ => simp [DataType.store, Converter.members, DataType.restores]
  | .struct fs =>
    rw [DataType.column] at h
    obtain ⟨us, hus, -⟩ := Outcome.bind_eq_ok.mp h
    obtain ⟨gs, hgs, hi⟩ := exists_memberConverters hus 0
    have hlen : gs.length = fs.length := hi.length_eq.symm
    refine ⟨.rearranged (inPlace 0 gs), ?_, fun c hs _ => ?_⟩
    · rw [DataType.returned, DataType.stored, ColumnType.exported, DataType.converter, hgs,
        Outcome.ok_bind, arrangement_tagged 0 hlen]
      rfl
    · cases c with
      | struct cs =>
        rw [DataType.shapes] at hs
        rw [DataType.store, DataType.restores, ← picked_inPlace hi [] hs, ← Outcome.mapM_eq_ok,
          Converter.rearranged]
        constructor
        · intro h
          obtain ⟨out, hout, h⟩ := Outcome.bind_eq_ok.mp h
          cases h
          exact hout
        · intro h
          rw [List.nil_append, List.length_nil] at h
          rw [h]
          rfl
      | _ => simp [DataType.store, Converter.rearranged, DataType.restores]
  | .fixedList .. | .dictionary .. | .map .. =>
    rw [DataType.column] at h
    cases h

theorem exists_memberConverters {fs : List Field} {us : List (String × ColumnType)}
    (h : fieldColumns fs = .ok us) (i : Nat) :
    ∃ gs, memberConverters fs i (membersExported (fieldsStored fs)) = .ok (tagged i fs gs) ∧
      List.Forall₂ (fun f g => f.type.Inverts g) fs gs := by
  match fs with
  | [] => exact ⟨[], by rw [fieldsStored, membersExported, memberConverters]; rfl, .nil⟩
  | ⟨name, t, nullable⟩ :: fs =>
    rw [fieldColumns] at h
    obtain ⟨u, hu, h⟩ := Outcome.bind_eq_ok.mp h
    obtain ⟨us, hus, -⟩ := Outcome.bind_eq_ok.mp h
    obtain ⟨g, hg, hi⟩ := DataType.exists_inverts hu
    obtain ⟨gs, hgs, his⟩ := exists_memberConverters hus (i + 1)
    refine ⟨g :: gs, ?_, .cons hi his⟩
    rw [DataType.returned] at hg
    rw [fieldsStored, membersExported, memberConverters, List.find?_cons_of_pos (by simp),
      List.eraseP_cons_of_pos (by simp)]
    dsimp only
    rw [hg, hgs]
    rfl
end

theorem membersShape_nulls (fs : List Field) : membersShape fs (fs.map fun _ => .null) = true := by
  induction fs with
  | nil => rw [List.map_nil, membersShape]
  | cons f fs ih =>
    obtain ⟨name, t, nullable⟩ := f
    rw [List.map_cons, membersShape, ih, Bool.and_true]
    cases t <;> simp [DataType.shapes]

mutual
/-- What leaves with its own type is held as it is, but for times that are too many, and has no
member that must be there. -/
theorem DataType.store_of_returned_eq {t : DataType} {u : ColumnType} (h : t.column = .ok u)
    (he : t.returned = t) {c : Cell} (hs : t.shapes c = true) :
    (t.store c = c ↔ t.restores c = true) ∧ t.lacks c = false := by
  match t with
  | .leaf k =>
    obtain ⟨u, hk⟩ := Leaf.exists_column? h
    obtain ⟨f, hf, hi⟩ := Leaf.exists_inverts hk
    rw [he, Leaf.converter_leaf_self] at hf
    cases hf
    rw [← hi c, Except.ok.injEq]
    exact ⟨Iff.rfl, by simp [DataType.lacks]⟩
  | .list f =>
    rw [DataType.returned, DataType.stored, ColumnType.exported] at he
    cases he
  | .largeList ⟨name, t, nullable⟩ =>
    rw [DataType.column] at h
    obtain ⟨u, hu, -⟩ := Outcome.bind_eq_ok.mp h
    rw [Field.column] at hu
    rw [DataType.returned, DataType.stored, Field.stored, ColumnType.exported, Field.item,
      DataType.largeList.injEq, Field.mk.injEq] at he
    cases c with
    | list cs =>
      rw [DataType.shapes, List.all_eq_true] at hs
      have hall : ∀ c ∈ cs, (t.store c = c ↔ t.restores c = true) ∧ t.lacks c = false :=
        fun c hc => DataType.store_of_returned_eq hu he.2.1 (hs c hc)
      constructor
      · rw [DataType.store, DataType.restores, List.all_eq_true, Cell.list.injEq]
        conv_lhs => rhs; rw [← List.map_id cs]
        rw [List.map_inj_left]
        exact forall₂_congr fun c hc => (hall c hc).1
      · rw [DataType.lacks, List.any_eq_false]
        exact fun c hc => Bool.eq_false_iff.mp (hall c hc).2
    | _ => simp [DataType.store, DataType.restores, DataType.lacks]
  | .struct fs =>
    rw [DataType.column] at h
    obtain ⟨us, hus, -⟩ := Outcome.bind_eq_ok.mp h
    rw [DataType.returned, DataType.stored, ColumnType.exported, DataType.struct.injEq] at he
    cases c with
    | struct cs =>
      rw [DataType.shapes] at hs
      rw [DataType.store, DataType.restores, DataType.lacks, Cell.struct.injEq]
      exact storeMembers_of_exported_eq hus he hs
    | null =>
      rw [DataType.lacks]
      exact ⟨by simp [DataType.store, DataType.restores],
        (storeMembers_of_exported_eq hus he (membersShape_nulls fs)).2⟩
    | _ => simp [DataType.store, DataType.restores, DataType.lacks]
  | .fixedList .. | .dictionary .. | .map .. =>
    rw [DataType.column] at h
    cases h

theorem storeMembers_of_exported_eq {fs : List Field} {us : List (String × ColumnType)}
    (h : fieldColumns fs = .ok us) (he : membersExported (fieldsStored fs) = fs) {cs : List Cell}
    (hs : membersShape fs cs = true) :
    (storeMembers fs cs = cs ↔ membersRestore fs cs = true) ∧ membersLack fs cs = false := by
  match fs, cs with
  | [], _ => simp [storeMembers, membersRestore, membersLack]
  | f :: fs, [] => simp [membersShape] at hs
  | ⟨name, t, nullable⟩ :: fs, c :: cs =>
    rw [fieldColumns] at h
    obtain ⟨u, hu, h⟩ := Outcome.bind_eq_ok.mp h
    obtain ⟨us, hus, -⟩ := Outcome.bind_eq_ok.mp h
    rw [fieldsStored, membersExported, List.cons.injEq, Field.mk.injEq] at he
    rw [membersShape, Bool.and_eq_true] at hs
    obtain ⟨hstore, hlacks⟩ := DataType.store_of_returned_eq hu he.1.2.1 hs.1
    obtain ⟨hstores, hlack⟩ := storeMembers_of_exported_eq hus he.2 hs.2
    rw [storeMembers, membersRestore, membersLack, List.cons.injEq, hstore, hstores,
      Bool.and_eq_true, hlacks, hlack, ← he.1.2.2]
    simp
end

/-- A cell that the engine takes and gives back as it was. -/
def DataType.returns (t : DataType) (c : Cell) : Bool := t.restores c && !t.lacks c

namespace Export
variable {t : DataType} {u : ColumnType} {cells : List Cell}

theorem convert_stored (h : t.column = .ok u) (hs : ∀ c ∈ cells, t.shapes c = true) :
    t.returned.convert t (cells.map t.store) = .ok cells ↔
    ∀ c ∈ cells, t.restores c = true := by
  unfold DataType.convert
  split
  · rename_i he
    rw [Except.ok.injEq]
    conv_lhs => rhs; rw [← List.map_id cells]
    rw [List.map_inj_left]
    exact forall₂_congr fun c hc => (DataType.store_of_returned_eq h he (hs c hc)).1
  · obtain ⟨f, hf, hi⟩ := DataType.exists_inverts h
    rw [hf, Outcome.ok_bind, Outcome.mapM_eq_ok, List.forall₂_map_left_iff, List.forall₂_same]
    exact forall₂_congr fun c hc => hi.present (hs c hc)

theorem convertColumn_stored (h : t.column = .ok u) (hs : ∀ c ∈ cells, t.shapes c = true) :
    convertColumn t.returned t [cells.map t.store] = .ok [cells] ↔
    ∀ c ∈ cells, t.returns c = true := by
  have hall : (∀ c ∈ cells, t.returns c = true) ↔
      (∀ c ∈ cells, t.restores c = true) ∧ ∀ c ∈ cells, t.lacks c = false := by
    rw [← forall₂_and]
    exact forall₂_congr fun c _ => by rw [DataType.returns, Bool.and_eq_true, Bool.not_eq_true']
  rw [hall]
  constructor
  · intro hc
    have hconvert : t.returned.convert t (cells.map t.store) = .ok cells :=
      (List.forall₂_cons.mp (Outcome.mapM_eq_ok.mp (convertColumn_ok hc))).1
    refine ⟨(convert_stored h hs).mp hconvert, fun c hmem => ?_⟩
    by_cases he : t.returned = t
    · exact (DataType.store_of_returned_eq h he (hs c hmem)).2
    · rw [convertColumn_chunk hconvert] at hc
      split at hc
      · cases hc
      · rename_i hlack
        simp only [he, ne_eq, not_false_eq_true, decide_true, Bool.true_and, Bool.not_eq_true,
          List.any_eq_false] at hlack
        exact hlack c hmem
  · rintro ⟨hr, hl⟩
    have hnone : cells.any t.lacks = false := by
      simpa using hl
    rw [convertColumn_chunk ((convert_stored h hs).mpr hr), hnone, Bool.and_false,
      if_neg Bool.false_ne_true]

/-- Stored columns leave under their schema as they came exactly if each of their cells does. -/
theorem convertAll_stored {s : Schema} {us : List (String × ColumnType)} (h : s.columns = .ok us)
    {columns : List (List Cell)} (hlen : columns.length = s.length)
    (hs : ∀ x ∈ s.zip columns, ∀ c ∈ x.2, x.1.type.shapes c = true) :
    convertAll s ((s.map (·.type.returned)).zip
        ((s.zipWith (fun f cs => cs.map f.type.store) columns).map fun c => [c])) =
        .ok (columns.map fun c => [c]) ↔
      ∀ x ∈ s.zip columns, ∀ c ∈ x.2, x.1.type.returns c = true := by
  induction s generalizing columns us with
  | nil =>
    obtain rfl := List.length_eq_zero_iff.mp hlen
    simp [convertAll]
  | cons f s ih =>
    obtain ⟨cells, columns, rfl⟩ := List.exists_cons_of_length_eq_add_one hlen
    obtain ⟨name, t, nullable⟩ := f
    rw [Schema.columns, fieldColumns] at h
    obtain ⟨u, hu, h⟩ := Outcome.bind_eq_ok.mp h
    obtain ⟨us, hus, -⟩ := Outcome.bind_eq_ok.mp h
    rw [List.zip_cons_cons, List.forall_mem_cons] at hs
    rw [List.zip_cons_cons, List.forall_mem_cons, List.zipWith_cons_cons, List.map_cons,
      List.map_cons,
      List.zip_cons_cons, List.map_cons, convertAll, ← convertColumn_stored hu hs.1,
      ← ih hus (by simpa using hlen) hs.2]
    constructor
    · intro hc
      obtain ⟨converted, hcol, hc⟩ := Outcome.bind_eq_ok.mp hc
      obtain ⟨rest, hrest, hc⟩ := Outcome.bind_eq_ok.mp hc
      cases hc
      exact ⟨hcol, hrest⟩
    · rintro ⟨hcol, hrest⟩
      exact Outcome.bind_eq_ok.mpr ⟨_, hcol, Outcome.bind_eq_ok.mpr ⟨_, hrest, rfl⟩⟩

end Export

end LazyQuery
