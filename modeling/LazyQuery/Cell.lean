import LazyQuery.DataType
import LazyQuery.Number.Rounding

/-! Cells: the values that columns hold. Dates, times, moments, spans and decimals are whole numbers
of the unit that their column's type names; the number itself carries no unit. -/
namespace LazyQuery

inductive Cell
  | null
  | bool (b : Bool)
  | int (i : Int)
  | float (x : Float)
  | text (s : String)
  | bytes (bs : List UInt8)
  | list (members : List Cell)
  | struct (members : List Cell)

mutual
/-- Same cell; what is no number is the same as itself here. -/
def Cell.same : Cell → Cell → Bool
  | .null, .null => true
  | .bool a, .bool b => a = b
  | .int i, .int j => i = j
  | .float x, .float y => x = y
  | .text s, .text t => s = t
  | .bytes bs, .bytes cs => bs = cs
  | .list as, .list bs => sameCells as bs
  | .struct as, .struct bs => sameCells as bs
  | _, _ => false

def sameCells : List Cell → List Cell → Bool
  | [], [] => true
  | a :: as, b :: bs => a.same b && sameCells as bs
  | _, _ => false
end

mutual
theorem Cell.eq_of_same : (a b : Cell) → a.same b = true → a = b := by
  intro a b h
  cases a <;> cases b <;> simp_all [Cell.same]
  · exact eq_of_sameCells _ _ h
  · exact eq_of_sameCells _ _ h

theorem eq_of_sameCells : (as bs : List Cell) → sameCells as bs = true → as = bs := by
  intro as bs h
  cases as <;> cases bs <;> simp_all [sameCells]
  exact ⟨Cell.eq_of_same _ _ h.1, eq_of_sameCells _ _ h.2⟩
end

mutual
theorem Cell.same_self : (a : Cell) → a.same a = true
  | .null | .bool _ | .int _ | .float _ | .text _ | .bytes _ => by simp [Cell.same]
  | .list as | .struct as => by simp [Cell.same, sameCells_self as]

theorem sameCells_self : (as : List Cell) → sameCells as as = true
  | [] => by simp [sameCells]
  | a :: as => by simp [sameCells, a.same_self, sameCells_self as]
end

instance : DecidableEq Cell := fun a b =>
  decidable_of_iff (a.same b = true) ⟨Cell.eq_of_same a b, fun h => h ▸ a.same_self⟩

def Cell.isNull : Cell → Bool
  | .null => true
  | _ => false

def IntegerType.range : IntegerType → Int × Int
  | .int8 => (-2 ^ 7, 2 ^ 7 - 1)
  | .int16 => (-2 ^ 15, 2 ^ 15 - 1)
  | .int32 => (-2 ^ 31, 2 ^ 31 - 1)
  | .int64 => (-2 ^ 63, 2 ^ 63 - 1)
  | .uint8 => (0, 2 ^ 8 - 1)
  | .uint16 => (0, 2 ^ 16 - 1)
  | .uint32 => (0, 2 ^ 32 - 1)
  | .uint64 => (0, 2 ^ 64 - 1)

def IntegerType.holds (k : IntegerType) (i : Int) : Bool := k.range.1 ≤ i && i ≤ k.range.2

end LazyQuery
