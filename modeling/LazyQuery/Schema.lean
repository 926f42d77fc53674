import LazyQuery.DataType

/-! Looking up and narrowing the fields of a schema. -/
namespace LazyQuery.Schema

/-- A position counted from the front, or from the back where it is negative. -/
def position? (length : Nat) (i : Int) : Option Nat :=
  if 0 ≤ i then if i < length then some i.toNat else none
  else if 0 ≤ i + length then some (i + length).toNat else none

/-- The field at a position; negative positions count from the back. -/
def at? (s : Schema) (i : Int) : Option Field :=
  (position? s.length i).bind fun k => s[k]?

/-- The position of the only field of this name. -/
def indexOf? (s : Schema) (name : String) : Option Nat :=
  if s.countP (·.name = name) = 1 then some (s.findIdx (·.name = name)) else none

/-- The fields at the given positions, in that order; nothing if one of them does not exist. -/
def project? (s : Schema) (positions : List Int) : Option Schema := positions.mapM s.at?

/-- The whole schema where nothing is selected, else the selected fields. -/
def narrow? (s : Schema) : Option (List Int) → Option Schema
  | none => some s
  | some positions => s.project? positions

def inRange (length : Nat) (i : Int) : Bool := 0 ≤ i && i < length

theorem position?_of_inRange {n : Nat} {i : Int} (h : inRange n i = true) :
    position? n i = some i.toNat := by
  simp only [inRange, Bool.and_eq_true, decide_eq_true_eq] at h
  simp [position?, h.1, h.2]

theorem at?_of_inRange {s : Schema} {i : Int} (h : inRange s.length i = true) :
    ∃ f, s.at? i = some f := by
  have hi := position?_of_inRange h
  simp only [inRange, Bool.and_eq_true, decide_eq_true_eq] at h
  refine ⟨s.get ⟨i.toNat, by omega⟩, ?_⟩
  simp only [at?, hi, Option.bind_some]
  exact List.getElem?_eq_getElem _

end LazyQuery.Schema
