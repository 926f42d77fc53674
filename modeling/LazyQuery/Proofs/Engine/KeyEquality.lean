import LazyQuery.Engine.Relation
import Mathlib

/-! Which cells, and which keys, the order of cells takes for equal: those that are the same,
but for the sign that a zero may have. All that is no number is equal to itself, and so is
what is missing. -/
namespace LazyQuery.Engine
open Float.Model

section floats

theorem swap_compareSigns (a b : UnpackedFloat.Sign) : (compare b a).swap = compare a b := by
  cases a <;> cases b <;> rfl

theorem swap_compareUnpacked (a b : UnpackedFloat) :
    (b.compare a).map Ordering.swap = a.compare b := by
  cases a with
  | notANumber => cases b <;> rfl
  | infinity s =>
    cases b with
    | infinity t => simp [UnpackedFloat.compare, swap_compareSigns]
    | _ => cases s <;> rfl
  | zero s =>
    cases b with
    | infinity t => cases t <;> rfl
    | finite t => cases t <;> rfl
    | _ => rfl
  | finite s m e hm =>
    cases b with
    | notANumber => rfl
    | infinity t => cases s <;> cases t <;> rfl
    | zero t => cases s <;> rfl
    | finite t n f hn =>
      have h : ((compare f e).then (compare n m)).swap = (compare e f).then (compare m n) := by
        rw [Ordering.swap_then, Int.compare_swap, Nat.compare_swap]
      cases s <;> cases t <;> simp [UnpackedFloat.compare, h]

theorem exists_compareUnpacked {a b : UnpackedFloat} (ha : a ≠ .notANumber)
    (hb : b ≠ .notANumber) :
    ∃ o, a.compare b = some o := by
  cases a with
  | notANumber => exact absurd rfl ha
  | infinity s => cases b <;> cases s <;> simp_all [UnpackedFloat.compare]
  | zero s =>
    cases b with
    | notANumber => exact absurd rfl hb
    | infinity t => cases t <;> exact ⟨_, rfl⟩
    | finite t => cases t <;> exact ⟨_, rfl⟩
    | zero t => exact ⟨_, rfl⟩
  | finite s =>
    cases b with
    | notANumber => exact absurd rfl hb
    | infinity t => cases s <;> cases t <;> exact ⟨_, rfl⟩
    | finite t => cases s <;> cases t <;> exact ⟨_, rfl⟩
    | zero t => cases s <;> exact ⟨_, rfl⟩

theorem lt_iff_compare (x y : Float) :
    x < y ↔ x.toModel.unpack.compare y.toModel.unpack = some .lt := by
  have hlt : x < y ↔ decide (x.toModel < y.toModel) = true := Iff.rfl
  have hmodel : x.toModel < y.toModel ↔
      (x.toModel.unpack.compare y.toModel.unpack == some .lt) = true := Iff.rfl
  rw [hlt, decide_eq_true_iff, hmodel, beq_iff_eq]

theorem beq_iff_compare (x y : Float) :
    (x == y) = true ↔ x.toModel.unpack.compare y.toModel.unpack = some .eq := by
  have hbeq : (x == y) = (x.toModel.unpack.compare y.toModel.unpack == some .eq) := rfl
  rw [hbeq, beq_iff_eq]

theorem unpack_ne {x : Float} (h : x.isNaN = false) : x.toModel.unpack ≠ .notANumber := by
  intro hn
  have hnan : x.isNaN = x.toModel.unpack.isNaN := rfl
  rw [hnan, hn] at h
  cases h

theorem beq_of_not_lt {x y : Float} (hx : x.isNaN = false) (hy : y.isNaN = false) (h : ¬x < y)
    (h' : ¬y < x) : (x == y) = true := by
  rw [lt_iff_compare] at h h'
  obtain ⟨o, ho⟩ := exists_compareUnpacked (unpack_ne hx) (unpack_ne hy)
  rw [← swap_compareUnpacked, ho] at h'
  rw [ho] at h
  rw [beq_iff_compare, ho]
  cases o with
  | lt => exact absurd rfl h
  | eq => rfl
  | gt => exact absurd rfl h'

/-- A number without the sign of a zero. -/
def unsigned (x : Float) : Float := if x == 0 then 0 else x

theorem beq_zero_iff (x : Float) : (x == 0) = true ↔ x = 0 ∨ x = -0 := by
  rw [Float.beq_iff_ne_nan_and_eq]
  constructor
  · rintro ⟨-, -, rfl | ⟨rfl, -⟩ | ⟨rfl, -⟩⟩
    · exact .inl rfl
    · exact .inl rfl
    · exact .inr rfl
  · rintro (rfl | rfl) <;> decide

theorem unsigned_eq_iff {x y : Float} (hx : x.isNaN = false) :
    unsigned x = unsigned y ↔ (x == y) = true := by
  rw [Float.isNaN_eq_decide_eq_nan, decide_eq_false_iff_not] at hx
  rw [Float.beq_iff_ne_nan_and_eq, unsigned, unsigned]
  constructor
  · intro h
    split at h <;> split at h
    · rename_i h0 h0'
      rcases (beq_zero_iff x).mp h0 with rfl | rfl <;> rcases (beq_zero_iff y).mp h0' with
        rfl | rfl <;> decide
    · rename_i h0 h0'
      subst h
      exact absurd rfl h0'
    · rename_i h0 h0'
      subst h
      exact absurd rfl h0
    · subst h
      exact ⟨hx, hx, .inl rfl⟩
  · rintro ⟨-, -, rfl | ⟨rfl, rfl⟩ | ⟨rfl, rfl⟩⟩
    · rfl
    · decide
    · decide

theorem compareFloats_eq_iff (x y : Float) :
    compareFloats x y = .eq ↔ unsigned x = unsigned y := by
  unfold compareFloats
  cases hx : x.isNaN with
  | true =>
    have hnan : x = Float.nan := by simpa using hx
    cases hy : y.isNaN with
    | true =>
      have hnan' : y = Float.nan := by simpa using hy
      simp [hnan, hnan']
    | false =>
      have hne : unsigned y ≠ unsigned x := by
        intro h
        rw [unsigned_eq_iff hy, hnan, Float.beq_nan_eq_false] at h
        cases h
      simp [hne.symm]
  | false =>
    cases hy : y.isNaN with
    | true =>
      have hnan : y = Float.nan := by simpa using hy
      have hne : unsigned x ≠ unsigned y := by
        intro h
        rw [unsigned_eq_iff hx, hnan, Float.beq_nan_eq_false] at h
        cases h
      simp [hne]
    | false =>
      rw [unsigned_eq_iff hx, beq_iff_compare]
      simp only [Bool.false_eq_true, if_false]
      split
      · rename_i h
        rw [(lt_iff_compare x y).mp h]
        simp
      · rename_i h
        split
        · rename_i h'
          rw [← swap_compareUnpacked, (lt_iff_compare y x).mp h']
          simp
        · rename_i h'
          simp [← beq_iff_compare, beq_of_not_lt hx hy h h']

end floats

section cells

theorem compareBools_eq_iff (a b : Bool) : compareBools a b = .eq ↔ a = b := by
  cases a <;> cases b <;> decide

theorem compareTexts_eq_iff (s t : String) : compareTexts s t = .eq ↔ s = t := by
  unfold compareTexts
  constructor
  · intro h
    split at h
    · cases h
    · rename_i hst
      split at h
      · cases h
      · rename_i hts
        exact String.le_antisymm (String.not_lt.mp hts) (String.not_lt.mp hst)
  · rintro rfl
    simp

theorem compareBytes_eq_iff (as bs : List UInt8) : compareBytes as bs = .eq ↔ as = bs := by
  induction as generalizing bs with
  | nil => cases bs <;> simp [compareBytes]
  | cons a as ih =>
    cases bs with
    | nil => simp [compareBytes]
    | cons b bs =>
      rw [compareBytes, List.cons.injEq]
      by_cases hab : a < b
      · simp [hab, UInt8.ne_of_lt hab]
      · by_cases hba : b < a
        · simp [hab, hba, (UInt8.ne_of_lt hba).symm]
        · have he : a = b := UInt8.le_antisymm (UInt8.not_lt.mp hba) (UInt8.not_lt.mp hab)
          simp [he, ih]

mutual
/-- A cell without the signs of zeros. -/
def unsignedCell : Cell → Cell
  | .float x => .float (unsigned x)
  | .list cs => .list (unsignedCells cs)
  | .struct cs => .struct (unsignedCells cs)
  | .null => .null
  | .bool b => .bool b
  | .int i => .int i
  | .text s => .text s
  | .bytes bs => .bytes bs

def unsignedCells : List Cell → List Cell
  | [] => []
  | c :: cs => unsignedCell c :: unsignedCells cs
end

mutual
theorem compareCells_eq_iff (a b : Cell) :
    compareCells a b = .eq ↔ unsignedCell a = unsignedCell b := by
  cases a with
  | null => cases b <;> simp [compareCells, unsignedCell, kindOf]
  | bool x =>
    cases b with
    | bool y => simp [compareCells, unsignedCell, compareBools_eq_iff]
    | _ => simp [compareCells, unsignedCell, kindOf]
  | int i =>
    cases b with
    | int j => simp [compareCells, unsignedCell]
    | _ => simp [compareCells, unsignedCell, kindOf]
  | float x =>
    cases b with
    | float y => simp [compareCells, unsignedCell, compareFloats_eq_iff]
    | _ => simp [compareCells, unsignedCell, kindOf]
  | text s =>
    cases b with
    | text t => simp [compareCells, unsignedCell, compareTexts_eq_iff]
    | _ => simp [compareCells, unsignedCell, kindOf]
  | bytes as =>
    cases b with
    | bytes bs => simp [compareCells, unsignedCell, compareBytes_eq_iff]
    | _ => simp [compareCells, unsignedCell, kindOf]
  | list as =>
    cases b with
    | list bs => simp [compareCells, unsignedCell, compareMembers_eq_iff as bs]
    | _ => simp [compareCells, unsignedCell, kindOf]
  | struct as =>
    cases b with
    | struct bs => simp [compareCells, unsignedCell, compareMembers_eq_iff as bs]
    | _ => simp [compareCells, unsignedCell, kindOf]

theorem compareMembers_eq_iff (as bs : List Cell) :
    compareMembers as bs = .eq ↔ unsignedCells as = unsignedCells bs := by
  match as, bs with
  | [], [] => simp [compareMembers, unsignedCells]
  | [], _ :: _ => simp [compareMembers, unsignedCells]
  | _ :: _, [] => simp [compareMembers, unsignedCells]
  | a :: as, b :: bs =>
    simp [compareMembers, unsignedCells, Ordering.then_eq_eq, compareCells_eq_iff a b,
      compareMembers_eq_iff as bs]
end

theorem sameKey_iff (a b : List Cell) :
    sameKey a b = true ↔ unsignedCells a = unsignedCells b := by
  rw [sameKey, beq_iff_eq, compareMembers_eq_iff]

theorem sameKey_self (a : List Cell) : sameKey a a = true := (sameKey_iff a a).mpr rfl

theorem sameKey_comm (a b : List Cell) : sameKey a b = sameKey b a := by
  rw [Bool.eq_iff_iff, sameKey_iff, sameKey_iff, eq_comm]

theorem sameKey_congr {a b : List Cell} (h : sameKey a b = true) (c : List Cell) :
    sameKey a c = sameKey b c := by
  rw [Bool.eq_iff_iff, sameKey_iff, sameKey_iff, (sameKey_iff a b).mp h]

/-- Missing values are the same key, and so are the two zeros, and all that is no number. -/
example : sameKey [.null, .float 0.0, .float (0.0 / 0.0)]
    [.null, .float (-0.0), .float (0.0 / 0.0)] = true := by
  decide +kernel

end cells
end LazyQuery.Engine
