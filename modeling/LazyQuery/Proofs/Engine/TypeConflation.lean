import LazyQuery.Proofs.Engine.TypeMapping
import LazyQuery.Proofs.Expr.Derivation

/-! How much of a declared type the mapping to execution types keeps. Lists and structs are taken
apart, and what they end in has to be one of the leaves that have an execution type. Of such types
those are told apart that differ after each leaf has been put in place of the others that share its
execution type and lists have lost the names of their members, and both lists and structs the
nullability of theirs. -/
namespace LazyQuery
open Engine

def Leaf.isMapped : Leaf → Bool
  | .null | .bool | .integer _ | .single | .double => true
  | .string | .largeString | .binary | .largeBinary => true
  | .date32 | .date64 | .time32 _ | .time64 _ | .timestamp .. | .duration _ => true
  | .half | .stringView | .monthDayNano | .decimal128 .. | .decimal256 .. | .fixedBinary _ => false

def DataType.isMappedLeaf : DataType → Bool
  | .leaf k => k.isMapped
  | _ => false

mutual
/-- What a type ends in, below the lists and the structs that it begins with. -/
def DataType.ends : DataType → List DataType
  | .list f | .largeList f => f.ends
  | .struct fs => allEnds fs
  | .leaf k => [.leaf k]
  | .fixedList f n => [.fixedList f n]
  | .dictionary i v => [.dictionary i v]
  | .map k v => [.map k v]

def Field.ends : Field → List DataType
  | ⟨_, t, _⟩ => t.ends

def allEnds : List Field → List DataType
  | [] => []
  | f :: fs => f.ends ++ allEnds fs
end

/-- One of the leaves that are held alike: texts and bytes of any size, dates counted in days, one
time of day, and no unit coarser than a millisecond. -/
def Leaf.plain : Leaf → Leaf
  | .largeString => .string
  | .largeBinary => .binary
  | .date64 => .date32
  | .time32 _ | .time64 _ => .time64 .nano
  | .timestamp .second z => .timestamp .milli z
  | .duration .second => .duration .milli
  | k => k

mutual
/-- A type without what is not kept of it: its leaves made plain, lists of one kind without a name
for their members, and every member nullable. -/
def DataType.plain : DataType → DataType
  | .leaf k => .leaf k.plain
  | .list f | .largeList f => .list (.item f.plain)
  | .struct fs => .struct (plainMembers fs)
  | .fixedList f n => .fixedList f n
  | .dictionary i v => .dictionary i v
  | .map k v => .map k v

def Field.plain : Field → DataType
  | ⟨_, t, _⟩ => t.plain

def plainMembers : List Field → List Field
  | [] => []
  | ⟨name, t, _⟩ :: fs => ⟨name, t.plain, true⟩ :: plainMembers fs
end

def Engine.Resolution.declared : Resolution → TimeUnit
  | .milli => .milli
  | .micro => .micro
  | .nano => .nano

mutual
def Engine.ColumnType.declared : ColumnType → DataType
  | .bool => .bool
  | .integer k => .leaf (.integer k)
  | .single => .leaf .single
  | .double => .double
  | .string => .string
  | .binary => .binary
  | .date => .date32
  | .time => .leaf (.time64 .nano)
  | .datetime u z => .leaf (.timestamp u.declared z)
  | .duration u => .leaf (.duration u.declared)
  | .list t => .list (.item t.declared)
  | .struct members => .struct (declaredMembers members)
  | .null | .half | .decimal .. | .category | .array .. => .null

def Engine.declaredMembers : List (String × ColumnType) → List Field
  | [] => []
  | (name, t) :: members => ⟨name, t.declared, true⟩ :: declaredMembers members
end

theorem Leaf.isSome_column? (k : Leaf) : k.column?.isSome = k.isMapped := by
  cases k <;> rfl

theorem Leaf.declared_of_column? {k : Leaf} {c : ColumnType} (h : k.column? = some c) :
    c.declared = .leaf k.plain := by
  cases k with
  | timestamp u z =>
    cases h
    cases u <;> rfl
  | duration u =>
    cases h
    cases u <;> rfl
  | _ => cases h <;> rfl

section mapping
open Outcome (fault?_bind fault?_bind_ok)

/-- What the mapping reports of a list of types: the first that has no execution type. -/
def firstUnmapped (ts : List DataType) : Option Fault :=
  (ts.find? fun t => !t.isMappedLeaf).map .unmappedType

theorem firstUnmapped_append (ts us : List DataType) :
    firstUnmapped (ts ++ us) = (firstUnmapped ts).or (firstUnmapped us) := by
  rw [firstUnmapped, firstUnmapped, firstUnmapped, List.find?_append]
  cases ts.find? fun t => !t.isMappedLeaf <;> rfl

mutual
/-- The mapping fails at the first end of a type that has no execution type, and nowhere else. -/
theorem DataType.fault?_column (t : DataType) : t.column.fault? = firstUnmapped t.ends := by
  cases t with
  | leaf k =>
    rw [DataType.column, DataType.ends, firstUnmapped, List.find?_singleton, DataType.isMappedLeaf,
      ← k.isSome_column?]
    cases k.column? <;> rfl
  | list f | largeList f =>
    rw [DataType.column, DataType.ends, ← f.fault?_column]
    exact fault?_bind_ok f.column ColumnType.list
  | struct fs =>
    rw [DataType.column, DataType.ends, ← fault?_fieldColumns fs]
    exact fault?_bind_ok (fieldColumns fs) ColumnType.struct
  | fixedList | dictionary | map => rfl

theorem Field.fault?_column (f : Field) : f.column.fault? = firstUnmapped f.ends := by
  obtain ⟨name, t, nullable⟩ := f
  exact t.fault?_column

theorem fault?_fieldColumns (fs : List Field) :
    (fieldColumns fs).fault? = firstUnmapped (allEnds fs) := by
  match fs with
  | [] => rfl
  | ⟨name, t, nullable⟩ :: fs =>
    rw [allEnds, firstUnmapped_append, Field.ends, ← t.fault?_column, ← fault?_fieldColumns fs,
      fieldColumns]
    exact fault?_bind fun c _ => fault?_bind_ok (fieldColumns fs) ((name, c) :: ·)
end

theorem DataType.exists_column_iff (t : DataType) :
    (∃ c, t.column = .ok c) ↔ ∀ u ∈ t.ends, u.isMappedLeaf = true := by
  have hf := t.fault?_column
  constructor
  · rintro ⟨c, hc⟩ u hu
    rw [hc] at hf
    have hnone := List.find?_eq_none.mp (Option.map_eq_none_iff.mp hf.symm) u hu
    simpa using hnone
  · intro h
    cases hc : t.column with
    | ok c => exact ⟨c, rfl⟩
    | error e =>
      rw [hc] at hf
      obtain ⟨u, hu, -⟩ := Option.map_eq_some_iff.mp hf.symm
      have hun := List.find?_some hu
      rw [h u (List.mem_of_find?_eq_some hu)] at hun
      cases hun

theorem DataType.unmapped_of_column {t : DataType} {e : Fault} (h : t.column = .error e) :
    ∃ u ∈ t.ends, u.isMappedLeaf = false ∧ e = .unmappedType u := by
  have hf := t.fault?_column
  rw [h] at hf
  obtain ⟨u, hu, he⟩ := Option.map_eq_some_iff.mp hf.symm
  exact ⟨u, List.mem_of_find?_eq_some hu, by simpa using List.find?_some hu, he.symm⟩

mutual
theorem DataType.column_plain (t : DataType) : t.plain.column = t.column := by
  cases t with
  | leaf k =>
    cases k with
    | timestamp u z => cases u <;> rfl
    | duration u => cases u <;> rfl
    | _ => rfl
  | list f | largeList f =>
    rw [DataType.plain, DataType.column, DataType.column, ← f.column_plain]
    rfl
  | struct fs => rw [DataType.plain, DataType.column, DataType.column, columns_plainMembers fs]
  | fixedList | dictionary | map => rfl

theorem Field.column_plain (f : Field) : f.plain.column = f.column := by
  obtain ⟨name, t, nullable⟩ := f
  exact t.column_plain

theorem columns_plainMembers (fs : List Field) :
    fieldColumns (plainMembers fs) = fieldColumns fs := by
  match fs with
  | [] => rfl
  | ⟨name, t, nullable⟩ :: fs =>
    rw [plainMembers, fieldColumns, fieldColumns, t.column_plain, columns_plainMembers fs]
end

mutual
theorem DataType.declared_of_column {t : DataType} {c : ColumnType} (h : t.column = .ok c) :
    c.declared = t.plain := by
  cases t with
  | leaf k =>
    rw [DataType.column] at h
    cases hk : k.column? with
    | none =>
      rw [hk] at h
      cases h
    | some d =>
      rw [hk] at h
      cases h
      rw [Leaf.declared_of_column? hk, DataType.plain]
  | list f | largeList f =>
    obtain ⟨d, hd, h⟩ := Outcome.bind_eq_ok.mp h
    cases h
    rw [ColumnType.declared, Field.declared_of_column hd, DataType.plain]
  | struct fs =>
    obtain ⟨members, hm, h⟩ := Outcome.bind_eq_ok.mp h
    cases h
    rw [ColumnType.declared, declared_of_fieldColumns hm, DataType.plain]
  | fixedList | dictionary | map => cases h

theorem Field.declared_of_column {f : Field} {c : ColumnType} (h : f.column = .ok c) :
    c.declared = f.plain := by
  obtain ⟨name, t, nullable⟩ := f
  exact DataType.declared_of_column (t := t) h

theorem declared_of_fieldColumns {fs : List Field} {members : List (String × ColumnType)}
    (h : fieldColumns fs = .ok members) : declaredMembers members = plainMembers fs := by
  match fs with
  | [] =>
    cases h
    rfl
  | ⟨name, t, nullable⟩ :: fs =>
    obtain ⟨c, hc, h⟩ := Outcome.bind_eq_ok.mp h
    obtain ⟨rest, hrest, h⟩ := Outcome.bind_eq_ok.mp h
    cases h
    rw [declaredMembers, DataType.declared_of_column hc, declared_of_fieldColumns hrest,
      plainMembers]
end

end mapping

/-- The mapping leads somewhere exactly from those types whose ends are leaves with an
execution type, and to the same from two of them exactly if these are the same once they have
been made plain. -/
theorem DataType.column_keeps (a b : DataType) :
    ((∃ c, a.column = .ok c) ↔ ∀ u ∈ a.ends, u.isMappedLeaf = true) ∧
      ∀ c d, a.column = .ok c → b.column = .ok d → (c = d ↔ a.plain = b.plain) := by
  refine ⟨a.exists_column_iff, fun c d ha hb => ⟨?_, fun h => ?_⟩⟩
  · rintro rfl
    exact (declared_of_column ha).symm.trans (declared_of_column hb)
  · have hab : a.column = b.column := by rw [← a.column_plain, ← b.column_plain, h]
    exact Except.ok.inj (ha.symm.trans (hab.trans hb))

def moments (member : String) (u : TimeUnit) : DataType :=
  .struct [⟨"at", .list ⟨member, .leaf (.timestamp u (some "UTC")), false⟩, true⟩,
    ⟨"id", .string, true⟩]

/-- That moments are counted in seconds and not in milliseconds is not kept, nor is the name of the
list's member; that they are counted in microseconds is. -/
theorem DataType.column_keeps_moments :
    ∃ c d, (moments "item" .second).column = .ok c ∧
      (moments "element" .milli).column = .ok c ∧
      (moments "item" .micro).column = .ok d ∧ c ≠ d := by
  have hsame := (column_keeps (moments "item" .second) (moments "element" .milli)).2 _ _ rfl rfl
  have hother := (column_keeps (moments "item" .second) (moments "item" .micro)).2 _ _ rfl rfl
  refine ⟨_, _, rfl, ?_, rfl, mt hother.mp (by decide)⟩
  rw [hsame.mpr (by decide)]
  rfl

end LazyQuery
