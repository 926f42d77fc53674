import LazyQuery.DataType.Conversion
import LazyQuery.Engine.Cast
import LazyQuery.Proofs.Outcome

/-! Where nulls cannot come from. Neither a cast nor a conversion makes a null of a cell that is
none: each gives another cell or fails. So a column without nulls stays one on its way through
everything that keeps its nullability. -/
namespace LazyQuery
open Engine

/-- Whatever comes of it, it is no null. -/
def Present (x : Outcome Cell) : Prop := x ≠ .ok .null

theorem present_ok {c : Cell} (h : c ≠ .null) : Present (.ok c) := fun hc => h (Except.ok.inj hc)

theorem present_bool (b : Bool) : Present (.ok (.bool b)) := present_ok nofun

theorem present_fail (kind : Lapse) : Present (fail kind) := nofun

theorem present_bind {α : Type} {x : Outcome α} {f : α → Outcome Cell}
    (h : ∀ a, Present (f a)) :
    Present (x >>= f) := by
  cases x with
  | error e => exact nofun
  | ok a => exact h a

theorem present_ite {p : Prop} [Decidable p] {x y : Outcome Cell} (hx : Present x)
    (hy : Present y) :
    Present (if p then x else y) := by
  split
  · exact hx
  · exact hy

namespace Engine

theorem present_toInteger (k : IntegerType) (i : Int) : Present (toInteger k i) :=
  present_ite (present_ok nofun) (present_fail _)

theorem present_orInvalid {α : Type} {f : α → Cell} (h : ∀ a, f a ≠ .null) (o : Option α) :
    Present (orInvalid f o) := by
  cases o with
  | none => exact present_fail _
  | some a => exact present_ok (h a)

theorem present_readText (t : ColumnType) (s : String) : Present (readText t s) := by
  unfold readText
  split
  · split
    · exact present_toInteger _ _
    · exact present_fail _
  all_goals first | exact present_orInvalid nofun _ | exact present_ok nofun | exact present_fail _

theorem present_castCount (s t : ColumnType) (i : Int) : Present (castCount s t i) := by
  unfold castCount
  split
  all_goals first
    | exact present_ok nofun
    | exact present_toInteger _ _
    | exact present_ite (present_ok nofun) (present_fail _)
    | exact present_fail _

theorem present_castDecimal (scale : Int) (t : ColumnType)
    (i : Int) : Present (castDecimal scale t i) := by
  unfold castDecimal
  split
  all_goals first | exact present_ok nofun | exact present_toInteger _ _ | exact present_fail _

theorem present_castFloat (s t : ColumnType) (x : Float) : Present (castFloat s t x) := by
  unfold castFloat
  split
  all_goals first
    | exact present_ok nofun
    | exact present_fail _
    | (split; exacts [present_toInteger _ _, present_fail _])

theorem present_castBool (t : ColumnType) (b : Bool) : Present (castBool t b) := by
  unfold castBool
  split
  all_goals first | exact present_ok nofun | exact present_fail _

theorem present_castBytes (t : ColumnType) (bs : List UInt8) : Present (castBytes t bs) := by
  unfold castBytes
  split
  all_goals first | exact present_ok nofun | exact present_orInvalid nofun _ | exact present_fail _

theorem present_integerCellText (t : ColumnType) (i : Int) : Present (integerCellText t i) := by
  unfold integerCellText
  split
  all_goals first | exact present_ok nofun | exact present_fail _

theorem present_castFlat {c : Cell} (hc : c ≠ .null)
    (s t : ColumnType) : Present (castFlat s t c) := by
  cases c with
  | null => exact absurd rfl hc
  | bool b => exact present_castBool t b
  | float x => exact present_castFloat s t x
  | text a => exact present_readText t a
  | bytes bs => exact present_castBytes t bs
  | int i =>
    unfold castFlat
    dsimp only
    split
    · exact present_castDecimal _ _ _
    · exact present_ok nofun
    · exact present_integerCellText _ _
    · exact present_castCount _ _ _
  | list cs => exact present_fail _
  | struct cs => exact present_fail _

theorem present_castCell {c : Cell} (hc : c ≠ .null)
    (s t : ColumnType) : Present (castCell s t c) := by
  unfold castCell
  split
  · split
    · exact absurd rfl hc
    · exact present_bind fun _ => present_ok nofun
    · exact present_bind fun _ => present_ok nofun
    · exact present_bind fun _ => present_ok nofun
  · exact present_ite (present_ok hc) (present_castFlat hc s _)

end Engine

namespace Converter

/-- Makes no nulls of what is none. -/
def Keeps (f : Converter) : Prop := ∀ c, c ≠ .null → Present (f c)

theorem keeps_ok : Keeps .ok := fun _ h => present_ok h

theorem keeps_ofInt {f : Int → Outcome Cell} (h : ∀ i, Present (f i)) : Keeps (.ofInt f) := by
  intro c hc
  cases c with
  | int i => exact h i
  | _ => exact present_ok hc

theorem keeps_ofBool {f : Bool → Cell} (h : ∀ b, f b ≠ .null) : Keeps (.ofBool f) := by
  intro c hc
  cases c with
  | bool b => exact present_ok (h b)
  | _ => exact present_ok hc

theorem keeps_ofFloat {f : Float → Outcome Cell}
    (h : ∀ x, Present (f x)) : Keeps (.ofFloat f) := by
  intro c hc
  cases c with
  | float x => exact h x
  | _ => exact present_ok hc

theorem keeps_ofText {f : String → Outcome Cell}
    (h : ∀ s, Present (f s)) : Keeps (.ofText f) := by
  intro c hc
  cases c with
  | text s => exact h s
  | _ => exact present_ok hc

theorem keeps_ofBytes {f : List UInt8 → Outcome Cell}
    (h : ∀ bs, Present (f bs)) : Keeps (.ofBytes f) := by
  intro c hc
  cases c with
  | bytes bs => exact h bs
  | _ => exact present_ok hc

theorem keeps_members (f : Converter) : Keeps (members f) := by
  intro c hc
  cases c with
  | list cs => exact present_bind fun _ => present_ok nofun
  | _ => exact present_ok hc

theorem keeps_sized (n : Nat) (f : Converter) : Keeps (sized n f) := by
  intro c hc
  cases c with
  | list cs => exact present_ite (keeps_members f _ hc) (present_fail _)
  | _ => exact keeps_members f _ hc

theorem keeps_rearranged (picks : List (Option (Nat × Converter))) : Keeps (rearranged picks) := by
  intro c hc
  cases c with
  | struct cs => exact present_bind fun _ => present_ok nofun
  | _ => exact present_ok hc

end Converter

section leaves
open Converter

theorem present_exactly {α : Type} {f : α → Cell} (h : ∀ a, f a ≠ .null) (o : Option α) :
    Present (exactly (o.map f)) := by
  cases o with
  | none => exact present_fail _
  | some a => exact present_ok (h a)

theorem present_cell (k : IntegerType) (i : Int) : Present (k.cell i) :=
  present_ite (present_ok nofun) (present_fail _)

theorem present_wholeCell (k : Leaf) (precision : Nat)
    (i : Int) : Present (k.wholeCell precision i) :=
  present_ite (present_ok nofun) (present_fail _)

theorem present_rescaled (u v : TimeUnit) (i : Int) : Present (rescaled u v i) :=
  present_ite (present_ok nofun) (present_fail _)

theorem present_decimalCell (precision i : Int) : Present (decimalCell precision i) :=
  present_ite (present_ok nofun) (present_fail _)

theorem present_rescaleDecimal (a b precision i : Int) : Present (rescaleDecimal a b precision i) :=
  present_ite (present_decimalCell _ _) (present_fail _)

theorem present_ofFloat (k : IntegerType) (x : Float) : Present (k.ofFloat x) := by
  unfold IntegerType.ofFloat
  split
  · exact present_ite (present_cell _ _) (present_fail _)
  · exact present_fail _

theorem keeps_textConverter {t : Leaf} {f : Converter} (h : textConverter t = .ok f) : f.Keeps := by
  unfold textConverter at h
  split at h
  all_goals first
    | (cases h; exact keeps_ofText fun _ => present_exactly nofun _)
    | (cases h; exact keeps_ofText fun _ => present_ok nofun)
    | skip
  · cases h
    refine keeps_ofText fun _ => ?_
    split
    · exact present_rescaleDecimal _ _ _ _
    · exact present_fail _
  · cases h
    refine keeps_ofText fun _ => ?_
    split
    · exact present_rescaleDecimal _ _ _ _
    · exact present_fail _
  · split at h
    · cases h
      exact keeps_ok
    · cases h

theorem keeps_toTextConverter {s : Leaf} {f : Converter} (h : toTextConverter s = .ok f) :
    f.Keeps := by
  unfold toTextConverter at h
  split at h
  all_goals cases h
  all_goals first
    | exact keeps_ofBool fun _ => nofun
    | exact keeps_ofInt fun _ => present_ok nofun
    | exact keeps_ofFloat fun _ => present_ok nofun
    | exact keeps_ofBytes fun _ => present_exactly nofun _

theorem keeps_integerConverter {k : IntegerType} {t : Leaf} {f : Converter}
    (h : integerConverter k t = .ok f) : f.Keeps := by
  unfold integerConverter at h
  split at h
  all_goals first
    | (cases h; exact keeps_ofInt fun _ => present_ok nofun)
    | (cases h; exact keeps_ofInt fun _ => present_cell _ _)
    | (cases h; exact keeps_ofInt fun _ => present_wholeCell _ _ _)
    | (split at h <;> cases h <;>
        first | exact keeps_ok | exact keeps_ofInt fun _ => present_decimalCell _ _)
    | cases h

theorem keeps_floatConverter {t : Leaf} {f : Converter} (h : floatConverter t = .ok f) :
    f.Keeps := by
  unfold floatConverter at h
  split at h
  all_goals cases h
  all_goals first
    | exact keeps_ofFloat fun _ => present_ok nofun
    | exact keeps_ofFloat fun _ => present_ofFloat _ _
    | skip
  all_goals
    refine keeps_ofFloat fun _ => ?_
    split
    · exact present_decimalCell _ _
    · exact present_fail _

theorem keeps_boolConverter {t : Leaf} {f : Converter} (h : boolConverter t = .ok f) : f.Keeps := by
  unfold boolConverter at h
  split at h <;> cases h <;> exact keeps_ofBool fun _ => nofun

theorem keeps_timeConverter {s t : Leaf} {f : Converter} (h : timeConverter s t = .ok f) :
    f.Keeps := by
  unfold timeConverter at h
  split at h <;> cases h
  all_goals first
    | exact keeps_ok
    | exact keeps_ofInt fun _ => present_ok nofun
    | exact keeps_ofInt fun _ => present_rescaled _ _ _

theorem keeps_decimalConverter {s t : Leaf} {f : Converter} (h : decimalConverter s t = .ok f) :
    f.Keeps := by
  unfold decimalConverter at h
  split at h <;> cases h
  all_goals first
    | exact keeps_ofInt fun _ => present_rescaleDecimal _ _ _ _
    | exact keeps_ofInt fun _ => present_ite (present_cell _ _) (present_fail _)
    | exact keeps_ofInt fun _ => present_ok nofun

theorem Leaf.keeps_converter {s t : Leaf} {f : Converter}
    (h : s.converter t = .ok f) : f.Keeps := by
  unfold Leaf.converter at h
  split at h
  · cases h
    exact keeps_ok
  split at h
  · exact keeps_textConverter h
  split at h
  · exact keeps_toTextConverter h
  split at h
  · exact keeps_decimalConverter h
  split at h
  · exact keeps_boolConverter h
  · exact keeps_integerConverter h
  all_goals first | exact keeps_floatConverter h | exact keeps_timeConverter h | skip
  all_goals
    split at h
    all_goals first
      | (cases h; exact keeps_ok)
      | (cases h; exact keeps_ofBytes fun _ => present_ite (present_ok nofun) (present_fail _))
      | cases h

/-- The conversion of a list of members makes no nulls, whatever becomes of the members. -/
theorem Field.keeps_listConverter {f : Field} {t : DataType} {g : Converter}
    (h : f.listConverter t = .ok g) : g.Keeps := by
  obtain ⟨name, s, nullable⟩ := f
  unfold Field.listConverter at h
  split at h
  · obtain ⟨inner, -, h⟩ := Outcome.bind_eq_ok.mp h
    cases h
    exact keeps_members _
  · obtain ⟨inner, -, h⟩ := Outcome.bind_eq_ok.mp h
    cases h
    exact keeps_members _
  · obtain ⟨inner, -, h⟩ := Outcome.bind_eq_ok.mp h
    cases h
    exact keeps_sized _ _
  · split at h <;> cases h
    exact keeps_ok
  · cases h

theorem DataType.keeps_converter {s t : DataType} {g : Converter} (h : s.converter t = .ok g) :
    g.Keeps := by
  unfold DataType.converter at h
  split at h
  · cases h
    exact keeps_ok
  · exact Leaf.keeps_converter h
  · exact Leaf.keeps_converter h
  · exact Field.keeps_listConverter h
  · exact Field.keeps_listConverter h
  · split at h
    · split at h
      · exact Field.keeps_listConverter h
      · cases h
    · exact Field.keeps_listConverter h
  · obtain ⟨found, -, h⟩ := Outcome.bind_eq_ok.mp h
    obtain ⟨picks, -, h⟩ := Outcome.bind_eq_ok.mp h
    cases h
    exact keeps_rearranged _
  · exact DataType.keeps_converter h
  · exact DataType.keeps_converter h
  · obtain ⟨inner, -, h⟩ := Outcome.bind_eq_ok.mp h
    cases h
    exact keeps_members _
  · cases h

end leaves

theorem present_convert {s t : DataType} {cells out : List Cell} (h : s.convert t cells = .ok out)
    (hc : Cell.null ∉ cells) : Cell.null ∉ out := by
  unfold DataType.convert at h
  split at h
  · cases h
    exact hc
  · obtain ⟨f, hf, h⟩ := Outcome.bind_eq_ok.mp h
    have hkeeps := DataType.keeps_converter hf
    intro hn
    obtain ⟨c, hcm, hcn⟩ := Outcome.exists_of_forall₂ (Outcome.mapM_eq_ok.mp h).flip hn
    have hne : c ≠ .null := fun he => hc (he ▸ hcm)
    split at hcn
    · exact hne (Except.ok.inj hcn)
    · exact hkeeps c hne hcn

end LazyQuery
