import LazyQuery.Number.Rounding

/-! Double precision numbers taken apart into sign, whole part and binary exponent, and made from
quotients of whole numbers. -/
namespace LazyQuery.Number

/-- A finite double is `± whole * 2 ^ exponent`. -/
structure Parts where
  negative : Bool
  whole : Nat
  exponent : Int
deriving DecidableEq, Repr

def isNegative (x : Float) : Bool := x.toBits.toNat ≥ 2 ^ 63

/-- The parts of a finite double; nothing for infinities and for what is no number. -/
def parts? (x : Float) : Option Parts :=
  let bits : Nat := x.toBits.toNat
  let field : Nat := bits / 2 ^ 52 % 2 ^ 11
  let fraction : Nat := bits % 2 ^ 52
  if field = 2047 then none
  else if field = 0 then some ⟨isNegative x, fraction, -1074⟩
  else some ⟨isNegative x, 2 ^ 52 + fraction, (field : Int) - 1075⟩

/-- The double `± whole * 2 ^ exponent`, where `whole` has at most 53 bits and, unless the exponent
is the lowest one, exactly 53; infinite where the exponent is too large. -/
def ofParts (negative : Bool) (whole : Nat) (exponent : Int) : Float :=
  let magnitude := min (0x7ff * 2 ^ 52) ((exponent + 1074).toNat * 2 ^ 52 + whole)
  Float.ofBits (UInt64.ofNat (magnitude + if negative then 2 ^ 63 else 0))

/-- The double nearest to `± num / den`. -/
def ofQuotient (negative : Bool) (num den : Nat) : Float :=
  if num = 0 then ofParts negative 0 (-1074)
  else
    let (m, e) := Grid.double.nearest num den
    ofParts negative m e

def ofInt (i : Int) : Float := ofQuotient (i < 0) i.natAbs 1

/-- The double nearest to `± digits * 10 ^ exponent`. Exponents far outside the range of doubles
are settled without computing the power. -/
def ofDecimal (negative : Bool) (digits : Nat) (exponent : Int) : Float :=
  let size : Int := (Nat.toDigits 10 digits).length + exponent
  if digits = 0 || size < -400 then ofParts negative 0 (-1074)
  else if 400 < size then ofParts negative 0 973
  else ofQuotient negative (digits * 10 ^ exponent.toNat) (10 ^ (-exponent).toNat)

def truncate? (x : Float) : Option Int :=
  (parts? x).map fun p =>
    let size : Nat := p.whole * 2 ^ p.exponent.toNat / 2 ^ (-p.exponent).toNat
    if p.negative then -(size : Int) else size

/-- The whole number nearest to a finite double times `10 ^ places`. -/
def roundedAt? (places : Int) (x : Float) : Option Int :=
  (parts? x).map fun p =>
    let num := p.whole * 2 ^ p.exponent.toNat * 10 ^ places.toNat
    let den := 2 ^ (-p.exponent).toNat * 10 ^ (-places).toNat
    let size : Nat := roundHalfEven num den
    if p.negative then -(size : Int) else size

/-- A double with the precision and range of the given grid, `top` being its largest exponent. -/
def narrow (g : Grid) (top : Int) (x : Float) : Float :=
  match parts? x with
  | none => x
  | some p =>
    if p.whole = 0 then x
    else
      let (m, e) := g.nearest (p.whole * 2 ^ p.exponent.toNat) (2 ^ (-p.exponent).toNat)
      if 2 ^ (top + 1 + 1100).toNat ≤ m * 2 ^ (e + 1100).toNat then ofParts p.negative 0 973
      else ofQuotient p.negative (m * 2 ^ e.toNat) (2 ^ (-e).toNat)

def toSingle (x : Float) : Float := narrow .single 127 x

def toHalf (x : Float) : Float := narrow .half 15 x

def nan : Float := Float.ofBits 0x7ff8000000000000
def infinity (negative : Bool) : Float := ofParts negative 0 973

end LazyQuery.Number
