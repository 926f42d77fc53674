import LazyQuery.Engine.TypeMapping
import LazyQuery.Proofs.Outcome

/-! The two ways of a declared type into the engine: by the mapping, and as the type of stored
columns. Both lead to one type wherever the mapping leads to any, except for dates that are counted
in milliseconds: these are stored as moments. -/
namespace LazyQuery
open Engine

mutual
def DataType.hasDate64 : DataType → Bool
  | .leaf .date64 => true
  | .leaf _ => false
  | .list f | .largeList f | .fixedList f _ => f.hasDate64
  | .struct fs => anyDate64 fs
  | .dictionary _ v => v.hasDate64
  | .map k v => k.hasDate64 || v.hasDate64

def Field.hasDate64 : Field → Bool
  | ⟨_, t, _⟩ => t.hasDate64

def anyDate64 : List Field → Bool
  | [] => false
  | f :: fs => f.hasDate64 || anyDate64 fs
end

theorem Leaf.stored_eq {k : Leaf} {t : ColumnType} (h : k.column? = some t) (hd : k ≠ .date64) :
    k.stored = t := by
  cases k <;> first | exact absurd rfl hd | cases h <;> rfl

mutual
theorem DataType.stored_of_column {t : DataType} {c : ColumnType} (h : t.column = .ok c) :
    t.isHeld = true ∧ (t.hasDate64 = false → t.stored = c) := by
  match t with
  | .leaf k =>
    rw [DataType.column] at h
    cases hk : k.column? with
    | none =>
      rw [hk] at h
      cases h
    | some u =>
      rw [hk] at h
      cases h
      refine ⟨?_, fun hd => ?_⟩
      · cases k <;> first | rfl | cases hk
      · rw [DataType.stored]
        refine Leaf.stored_eq hk ?_
        rintro rfl
        cases hd
  | .list f | .largeList f =>
    rw [DataType.column] at h
    obtain ⟨u, hu, h⟩ := Outcome.bind_eq_ok.mp h
    cases h
    obtain ⟨hheld, hs⟩ := Field.stored_of_column hu
    rw [DataType.isHeld, DataType.hasDate64, DataType.stored]
    exact ⟨hheld, fun hd => by rw [hs hd]⟩
  | .struct fs =>
    rw [DataType.column] at h
    obtain ⟨u, hu, h⟩ := Outcome.bind_eq_ok.mp h
    cases h
    obtain ⟨hheld, hs⟩ := fieldsStored_of_columns hu
    rw [DataType.isHeld, DataType.hasDate64, DataType.stored]
    exact ⟨hheld, fun hd => by rw [hs hd]⟩
  | .fixedList .. | .dictionary .. | .map .. =>
    rw [DataType.column] at h
    cases h

theorem Field.stored_of_column {f : Field} {c : ColumnType} (h : f.column = .ok c) :
    f.isHeld = true ∧ (f.hasDate64 = false → f.stored = c) := by
  match f with
  | ⟨_, t, _⟩ =>
    rw [Field.column] at h
    rw [Field.isHeld, Field.hasDate64, Field.stored]
    exact DataType.stored_of_column h

theorem fieldsStored_of_columns {fs : List Field} {cs : List (String × ColumnType)}
    (h : fieldColumns fs = .ok cs) : allHeld fs = true ∧
    (anyDate64 fs = false → fieldsStored fs = cs) := by
  match fs with
  | [] =>
    cases h
    exact ⟨rfl, fun _ => rfl⟩
  | ⟨name, t, nullable⟩ :: fs =>
    rw [fieldColumns] at h
    obtain ⟨c, hc, h⟩ := Outcome.bind_eq_ok.mp h
    obtain ⟨cs, hcs, h⟩ := Outcome.bind_eq_ok.mp h
    cases h
    obtain ⟨hheld, hs⟩ := DataType.stored_of_column hc
    obtain ⟨hall, hss⟩ := fieldsStored_of_columns hcs
    refine ⟨?_, fun hd => ?_⟩
    · rw [allHeld, Field.isHeld, hheld, hall]
      rfl
    · rw [anyDate64, Field.hasDate64, Bool.or_eq_false_iff] at hd
      rw [fieldsStored, hs hd.1, hss hd.2]
end

theorem fieldsStored_eq (fs : List Field) : fieldsStored fs = fs.map fun f =>
    (f.name, f.type.stored) := by
  induction fs with
  | nil => rw [fieldsStored]; rfl
  | cons f fs ih =>
    obtain ⟨name, t, nullable⟩ := f
    rw [fieldsStored, ih]
    rfl

end LazyQuery
