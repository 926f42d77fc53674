/-! Column types: leaves, and types nested in lists, structs, dictionaries and maps. A nested type
and the field that names it are defined together; equality of both is decided structurally. -/
namespace LazyQuery

/-- The resolution of a point in time or a span. -/
inductive TimeUnit
  | second | milli | micro | nano
deriving DecidableEq, Repr

def TimeUnit.perSecond : TimeUnit → Int
  | .second => 1 | .milli => 1000 | .micro => 1000000 | .nano => 1000000000

inductive IntegerType
  | int8 | int16 | int32 | int64 | uint8 | uint16 | uint32 | uint64
deriving DecidableEq, Repr

/-- Types without components. -/
inductive Leaf
  | null
  | bool
  | integer (kind : IntegerType)
  | half | single | double
  | string | largeString | stringView
  | binary | largeBinary
  | date32 | date64
  | timestamp (unit : TimeUnit) (zone : Option String)
  | duration (unit : TimeUnit)
  | time32 (unit : TimeUnit)
  | time64 (unit : TimeUnit)
  | monthDayNano
  | decimal128 (precision scale : Int)
  | decimal256 (precision scale : Int)
  | fixedBinary (size : Nat)
deriving DecidableEq, Repr

mutual
/-- A column type. -/
inductive DataType
  | leaf (kind : Leaf)
  | list (item : Field)
  | largeList (item : Field)
  | fixedList (item : Field) (size : Nat)
  | struct (fields : List Field)
  | dictionary (index value : DataType)
  | map (key value : DataType)

/-- A named column or member. -/
structure Field where
  name : String
  type : DataType
  nullable : Bool
end

deriving instance Repr for DataType, Field

abbrev Schema := List Field

mutual
def DataType.same : DataType → DataType → Bool
  | .leaf a, .leaf b => a = b
  | .list a, .list b => a.same b
  | .largeList a, .largeList b => a.same b
  | .fixedList a m, .fixedList b n => m = n && a.same b
  | .struct a, .struct b => sameFields a b
  | .dictionary i v, .dictionary j w => i.same j && v.same w
  | .map k v, .map l w => k.same l && v.same w
  | _, _ => false

def Field.same : Field → Field → Bool
  | ⟨m, t, p⟩, ⟨n, u, q⟩ => m = n && p = q && t.same u

def sameFields : List Field → List Field → Bool
  | [], [] => true
  | f :: fs, g :: gs => f.same g && sameFields fs gs
  | _, _ => false
end

mutual
theorem DataType.eq_of_same : (a b : DataType) → a.same b = true → a = b := by
  intro a b h
  cases a <;> cases b <;> simp_all [DataType.same]
  · exact Field.eq_of_same _ _ h
  · exact Field.eq_of_same _ _ h
  · exact Field.eq_of_same _ _ h.2
  · exact eq_of_sameFields _ _ h
  · exact ⟨DataType.eq_of_same _ _ h.1, DataType.eq_of_same _ _ h.2⟩
  · exact ⟨DataType.eq_of_same _ _ h.1, DataType.eq_of_same _ _ h.2⟩

theorem Field.eq_of_same : (f g : Field) → f.same g = true → f = g := by
  intro f g h
  obtain ⟨m, t, p⟩ := f
  obtain ⟨n, u, q⟩ := g
  simp only [Field.same, Bool.and_eq_true, decide_eq_true_eq] at h
  rw [h.1.1, h.1.2, DataType.eq_of_same _ _ h.2]

theorem eq_of_sameFields : (fs gs : List Field) → sameFields fs gs = true → fs = gs := by
  intro fs gs h
  cases fs <;> cases gs <;> simp_all [sameFields]
  exact ⟨Field.eq_of_same _ _ h.1, eq_of_sameFields _ _ h.2⟩
end

mutual
theorem DataType.same_self : (a : DataType) → a.same a = true
  | .leaf _ => by simp [DataType.same]
  | .list f => by simp [DataType.same, f.same_self]
  | .largeList f => by simp [DataType.same, f.same_self]
  | .fixedList f _ => by simp [DataType.same, f.same_self]
  | .struct fs => by simp [DataType.same, sameFields_self fs]
  | .dictionary i v => by simp [DataType.same, i.same_self, v.same_self]
  | .map k v => by simp [DataType.same, k.same_self, v.same_self]

theorem Field.same_self : (f : Field) → f.same f = true
  | ⟨_, t, _⟩ => by simp [Field.same, t.same_self]

theorem sameFields_self : (fs : List Field) → sameFields fs fs = true
  | [] => by simp [sameFields]
  | f :: fs => by simp [sameFields, f.same_self, sameFields_self fs]
end

instance : DecidableEq DataType := fun a b =>
  decidable_of_iff (a.same b = true) ⟨DataType.eq_of_same a b, fun h => h ▸ a.same_self⟩

instance : DecidableEq Field := fun a b =>
  decidable_of_iff (a.same b = true) ⟨Field.eq_of_same a b, fun h => h ▸ a.same_self⟩

namespace DataType

@[match_pattern] abbrev null : DataType := .leaf .null
@[match_pattern] abbrev bool : DataType := .leaf .bool
@[match_pattern] abbrev int64 : DataType := .leaf (.integer .int64)
@[match_pattern] abbrev uint64 : DataType := .leaf (.integer .uint64)
@[match_pattern] abbrev double : DataType := .leaf .double
@[match_pattern] abbrev string : DataType := .leaf .string
@[match_pattern] abbrev binary : DataType := .leaf .binary
@[match_pattern] abbrev date32 : DataType := .leaf .date32

def isFloating : DataType → Bool
  | .leaf .half | .leaf .single | .leaf .double => true
  | _ => false

end DataType

/-- The field that stands for the members of a list. -/
def Field.item (type : DataType) : Field := ⟨"item", type, true⟩

end LazyQuery
