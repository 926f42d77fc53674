import LazyQuery.DataType
import LazyQuery.Text.Quoted

/-! The types that columns have during execution. There are fewer of them than declared
types: one kind of text, of bytes and of list, one time of day, and no resolution coarser
than a millisecond. -/
namespace LazyQuery.Engine

inductive Resolution
  | milli | micro | nano
deriving DecidableEq, Repr

inductive ColumnType
  | null
  | bool
  | integer (kind : IntegerType)
  | half | single | double
  | string
  | binary
  | date
  | time
  | datetime (unit : Resolution) (zone : Option String)
  | duration (unit : Resolution)
  | decimal (precision scale : Int)
  | category
  | list (item : ColumnType)
  | array (item : ColumnType) (size : Nat)
  | struct (members : List (String × ColumnType))
deriving Repr

mutual
def ColumnType.same : ColumnType → ColumnType → Bool
  | .null, .null | .bool, .bool | .half, .half | .single, .single | .double, .double
  | .string, .string | .binary, .binary | .date, .date | .time, .time | .category, .category => true
  | .integer a, .integer b => a = b
  | .datetime u z, .datetime v y => u = v && z = y
  | .duration u, .duration v => u = v
  | .decimal p s, .decimal q t => p = q && s = t
  | .list a, .list b => a.same b
  | .array a m, .array b n => m = n && a.same b
  | .struct as, .struct bs => sameMembers as bs
  | _, _ => false

def sameMembers : List (String × ColumnType) → List (String × ColumnType) → Bool
  | [], [] => true
  | (m, a) :: as, (n, b) :: bs => m = n && a.same b && sameMembers as bs
  | _, _ => false
end

mutual
theorem ColumnType.eq_of_same : (a b : ColumnType) → a.same b = true → a = b := by
  intro a b h
  cases a <;> cases b <;> simp_all [ColumnType.same]
  · exact ColumnType.eq_of_same _ _ h
  · exact ColumnType.eq_of_same _ _ h.2
  · exact eq_of_sameMembers _ _ h

theorem eq_of_sameMembers : (as bs : List (String × ColumnType)) → sameMembers as bs = true →
    as = bs := by
  intro as bs h
  match as, bs with
  | [], [] => rfl
  | [], _ :: _ => simp [sameMembers] at h
  | _ :: _, [] => simp [sameMembers] at h
  | (m, a) :: as, (n, b) :: bs =>
    simp only [sameMembers, Bool.and_eq_true, decide_eq_true_eq] at h
    rw [h.1.1, ColumnType.eq_of_same a b h.1.2, eq_of_sameMembers as bs h.2]
end

mutual
theorem ColumnType.same_self : (a : ColumnType) → a.same a = true
  | .null | .bool | .half | .single | .double | .string | .binary | .date | .time | .category
  | .integer _ | .datetime .. | .duration _ | .decimal .. => by simp [ColumnType.same]
  | .list a => by simp [ColumnType.same, a.same_self]
  | .array a _ => by simp [ColumnType.same, a.same_self]
  | .struct as => by simp [ColumnType.same, sameMembers_self as]

theorem sameMembers_self : (as : List (String × ColumnType)) → sameMembers as as = true
  | [] => by simp [sameMembers]
  | (m, a) :: as => by simp [sameMembers, a.same_self, sameMembers_self as]
end

instance : DecidableEq ColumnType := fun a b =>
  decidable_of_iff (a.same b = true) ⟨ColumnType.eq_of_same a b, fun h => h ▸ a.same_self⟩

def Resolution.text : Resolution → String
  | .milli => "ms" | .micro => "us" | .nano => "ns"

def Resolution.perSecond : Resolution → Int
  | .milli => 1000 | .micro => 1000000 | .nano => 1000000000

def integerText : IntegerType → String
  | .int8 => "Int8" | .int16 => "Int16" | .int32 => "Int32" | .int64 => "Int64"
  | .uint8 => "UInt8" | .uint16 => "UInt16" | .uint32 => "UInt32" | .uint64 => "UInt64"

def zoneText : Option String → String
  | none => "None"
  | some z => Text.quoted z

mutual
def ColumnType.text : ColumnType → String
  | .null => "Null"
  | .bool => "Boolean"
  | .integer k => integerText k
  | .half => "Float16" | .single => "Float32" | .double => "Float64"
  | .string => "String"
  | .binary => "Binary"
  | .date => "Date"
  | .time => "Time"
  | .datetime u z => "Datetime(time_unit='" ++ u.text ++ "', time_zone=" ++ zoneText z ++ ")"
  | .duration u => "Duration(time_unit='" ++ u.text ++ "')"
  | .decimal p s => "Decimal(precision=" ++ toString p ++ ", scale=" ++ toString s ++ ")"
  | .category => "Categorical"
  | .list a => "List(" ++ a.text ++ ")"
  | .array a n => "Array(" ++ a.text ++ ", shape=(" ++ toString n ++ ",))"
  | .struct as => "Struct(\x7b" ++ ", ".intercalate (memberTexts as) ++ "\x7d)"

def memberTexts : List (String × ColumnType) → List String
  | [] => []
  | (name, t) :: as => (Text.quoted name ++ ": " ++ t.text) :: memberTexts as
end

namespace ColumnType

def isInteger : ColumnType → Bool
  | .integer _ => true
  | _ => false

def isFloat : ColumnType → Bool
  | .half | .single | .double => true
  | _ => false

def isNumeric (t : ColumnType) : Bool := t.isInteger || t.isFloat

def isTemporal : ColumnType → Bool
  | .date | .time | .datetime .. | .duration _ => true
  | _ => false

def isNested : ColumnType → Bool
  | .list _ | .array .. | .struct _ => true
  | _ => false

def isDecimal : ColumnType → Bool
  | .decimal .. => true
  | _ => false

@[match_pattern] abbrev int64 : ColumnType := .integer .int64
@[match_pattern] abbrev uint32 : ColumnType := .integer .uint32

end ColumnType
end LazyQuery.Engine
