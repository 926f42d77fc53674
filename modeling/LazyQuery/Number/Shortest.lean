import LazyQuery.Number.Double

/-! The fewest decimal digits that read back as the same number of limited precision, and the text
written with them. -/
namespace LazyQuery.Number

/-- The value `0.d₁d₂… * 10 ^ point`, with the digits as one whole number. -/
structure Digits where
  digits : Nat
  point : Int
deriving DecidableEq, Repr

def decimalLength (n : Nat) : Nat := (Nat.toDigits 10 n).length

/-- The least `p` with `whole * 2 ^ exponent < 10 ^ p`, for a positive value. -/
def magnitude (p : Parts) : Int :=
  let num := p.whole * 2 ^ p.exponent.toNat
  let den := 2 ^ (-p.exponent).toNat
  if den ≤ num then decimalLength (num / den) else 1 - (decimalLength ((den - 1) / num) : Int)

/-- Four times the value and the two ends of the interval of reals that round to it, over one
denominator: the ends belong to the interval when the whole part is even. -/
structure Interval where
  low : Nat
  value : Nat
  high : Nat
  den : Nat
  closed : Bool

/-- The interval of a number of a grid, in units of `10 ^ unit`. -/
def Parts.interval (p : Parts) (g : Grid) (unit : Int) : Interval :=
  let up := 2 ^ p.exponent.toNat * 10 ^ (-unit).toNat
  let below := if p.whole = 2 ^ (g.precision - 1) && p.exponent ≠ g.lowest then 1 else 2
  { low := (4 * p.whole - below) * up
    value := 4 * p.whole * up
    high := (4 * p.whole + 2) * up
    den := 4 * 2 ^ (-p.exponent).toNat * 10 ^ unit.toNat
    closed := p.whole % 2 = 0 }

def Interval.has (i : Interval) (n : Nat) : Bool :=
  if i.closed then i.low ≤ n * i.den && n * i.den ≤ i.high
  else i.low < n * i.den && n * i.den < i.high

/-- The neighbour of the value among whole numbers that lies in the interval; of two the
nearer one, and of two equally near the even one. -/
def Interval.pick? (i : Interval) : Option Nat :=
  let down := i.value / i.den
  let nearer := roundHalfEven i.value i.den
  if i.has nearer then some nearer
  else if i.has down then some down
  else if i.has (down + 1) then some (down + 1)
  else none

/-- Tries `1, 2, …, 17` digits; seventeen always suffice. -/
def Parts.shortest (p : Parts) (g : Grid) : Digits :=
  let top := magnitude p
  let found : Option (Nat × Nat) := (List.range 17).findSome? fun (n : Nat) =>
    (p.interval g (top - n - 1)).pick?.map fun d => (d, n + 1)
  match found with
  | some (d, n) => if d = 10 ^ n then ⟨1, top + 1⟩ else ⟨d, top⟩
  | none => ⟨0, 1⟩

/-- How a number is written: positionally while the point lies in `least … most`, else with an
exponent of at least `exponentDigits` digits, a positive one after the mark `plus`. A whole number
written positionally ends in `ending`. -/
structure Layout where
  least : Int
  most : Int
  exponentDigits : Nat
  plus : String
  ending : String
  infinite : String
  undefined : String

/-- Positional from a ten-thousandth up to below ten to the sixteenth. -/
def Layout.plain : Layout := ⟨-3, 16, 2, "+", ".0", "inf", "nan"⟩

/-- Positional from a hundred-thousandth; exponents have no positive sign and no padding. -/
def Layout.compact : Layout := ⟨-4, 16, 1, "", ".0", "inf", "NaN"⟩

/-- Positional from a millionth up to below ten to the tenth; whole numbers have no point. -/
def Layout.bare : Layout := ⟨-5, 10, 1, "+", "", "inf", "nan"⟩

def zeroes (n : Nat) : String := String.ofList (List.replicate n '0')

def Layout.exponent (l : Layout) (e : Int) : String :=
  let digits := toString e.natAbs
  (if e < 0 then "e-" else "e" ++ l.plus) ++ zeroes (l.exponentDigits - digits.length) ++ digits

def Layout.finite (l : Layout) (d : Digits) : String :=
  let ds := toString d.digits
  let n : Int := ds.length
  if l.least ≤ d.point && d.point ≤ l.most then
    if d.point ≤ 0 then "0." ++ zeroes (-d.point).toNat ++ ds
    else if n ≤ d.point then ds ++ zeroes (d.point - n).toNat ++ l.ending
    else String.ofList (ds.toList.take d.point.toNat ++ '.' :: ds.toList.drop d.point.toNat)
  else
    let tail := String.ofList (ds.toList.drop 1)
    String.ofList (ds.toList.take 1) ++ (if tail.isEmpty then "" else "." ++ tail) ++
      l.exponent (d.point - 1)

def Parts.onGrid (p : Parts) (g : Grid) : Parts :=
  let (m, e) := g.nearest (p.whole * 2 ^ p.exponent.toNat) (2 ^ (-p.exponent).toNat)
  ⟨p.negative, m, e⟩

/-- The text of a number of a grid: sign and shortest digits, or a word where there are none. -/
def Layout.textOn (l : Layout) (g : Grid) (x : Float) : String :=
  match parts? x with
  | none => if x.isNaN then l.undefined else (if isNegative x then "-" else "") ++ l.infinite
  | some p => (if p.negative then "-" else "") ++
    if p.whole = 0 then "0" ++ l.ending else l.finite ((p.onGrid g).shortest g)

def Layout.text (l : Layout) (x : Float) : String := l.textOn .double x

def text (x : Float) : String := Layout.plain.text x

end LazyQuery.Number
