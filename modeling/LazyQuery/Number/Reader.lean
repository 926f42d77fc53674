import LazyQuery.Number.Double
import LazyQuery.Text.Digit

/-! Reading whole numbers and decimal fractions from text. -/
namespace LazyQuery.Number

/-- Whole numbers written with more digits than this are not converted. -/
def digitLimit : Nat := 4300

def splitSign : List Char → Bool × List Char
  | '-' :: cs => (true, cs)
  | '+' :: cs => (false, cs)
  | cs => (false, cs)

/-- The digits of a numeral in which single underscores may stand between digits. -/
def ungroup : List Char → Option (List Char)
  | [] => none
  | [c] => if Text.isDigit c then some [c] else none
  | c :: '_' :: cs => if Text.isDigit c then (ungroup cs).map (c :: ·) else none
  | c :: cs => if Text.isDigit c then (ungroup cs).map (c :: ·) else none

/-- A whole number with blanks around it, an optional sign and grouped digits of any script. -/
def readInt? (s : String) : Option Int :=
  let (negative, cs) := splitSign (Text.strip s.toList)
  (ungroup cs).bind fun ds =>
    if digitLimit < ds.length then none
    else some (if negative then -(Text.denote ds : Int) else Text.denote ds)

def spanDigits (cs : List Char) : List Char × List Char :=
  (cs.takeWhile Text.isAsciiDigit, cs.dropWhile Text.isAsciiDigit)

/-- An exponent part: nothing, or a letter `e` with a sign and digits. -/
def readExponent? : List Char → Option Int
  | [] => some 0
  | c :: cs =>
    if c = 'e' || c = 'E' then
      let (negative, ds) := splitSign cs
      if !ds.isEmpty && ds.all Text.isAsciiDigit then
        some (if negative then -(Text.asciiValue ds : Int) else Text.asciiValue ds)
      else none
    else none

/-- A decimal numeral: digits with at most one point among, before or after them, then an exponent
part. The result is the sign, all digits as one number, and the power of ten to multiply by. -/
def readDecimal? (cs : List Char) : Option (Bool × Nat × Int) :=
  let (negative, cs) := splitSign cs
  let (whole, rest) := spanDigits cs
  let (fraction, rest) := match rest with
    | '.' :: more => spanDigits more
    | more => ([], more)
  if whole.isEmpty && fraction.isEmpty then none
  else (readExponent? rest).map fun e =>
    (negative, Text.asciiValue (whole ++ fraction), e - fraction.length)

def lowerAscii (cs : List Char) : List Char := cs.map Char.toLower

/-- A double: a decimal numeral, or a signed `inf`, `infinity` or `nan` in any case of letters. -/
def readDouble? (cs : List Char) : Option Float :=
  match readDecimal? cs with
  | some (negative, digits, e) => some (ofDecimal negative digits e)
  | none =>
    let (negative, word) := splitSign cs
    let word := lowerAscii word
    if word = ['i', 'n', 'f'] || word = "infinity".toList then some (infinity negative)
    else if word = ['n', 'a', 'n'] then some nan
    else none

end LazyQuery.Number
