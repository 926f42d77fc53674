import LazyQuery.Text.Printable

/-! Quoted forms of texts and of byte strings. The quote is single unless the content has a single
quote and no double one; what cannot be shown is written as an escape. -/
namespace LazyQuery.Text

def quoteFor (hasSingle hasDouble : Bool) : Char :=
  if hasSingle && !hasDouble then '"' else '\''

/-- `width` lower-case hexadecimal digits of `n`, the highest dropped first. -/
def hex (width n : Nat) : List Char :=
  match width with
  | 0 => []
  | w + 1 => hex w (n / 16) ++ [Nat.digitChar (n % 16)]

def escapeShort? (quote c : Char) : Option (List Char) :=
  if c = quote || c = '\\' then some ['\\', c]
  else if c = '\t' then some ['\\', 't']
  else if c = '\n' then some ['\\', 'n']
  else if c = '\r' then some ['\\', 'r']
  else none

/-- One character inside quotes: two, four or eight hexadecimal digits where it cannot be shown. -/
def escapeChar (quote c : Char) : List Char :=
  (escapeShort? quote c).getD <|
    if isPrintable c then [c]
    else if c.toNat < 0x100 then '\\' :: 'x' :: hex 2 c.toNat
    else if c.toNat < 0x10000 then '\\' :: 'u' :: hex 4 c.toNat
    else '\\' :: 'U' :: hex 8 c.toNat

/-- One byte inside quotes: only the printable ASCII characters are shown. -/
def escapeByte (quote : Char) (b : UInt8) : List Char :=
  (escapeShort? quote (Char.ofNat b.toNat)).getD <|
    if 0x20 ≤ b && b < 0x7f then [Char.ofNat b.toNat] else '\\' :: 'x' :: hex 2 b.toNat

def quoteChars (cs : List Char) : List Char :=
  let q := quoteFor (cs.contains '\'') (cs.contains '"')
  q :: cs.flatMap (escapeChar q) ++ [q]

def quoted (s : String) : String := String.ofList (quoteChars s.toList)

/-- The quoted form of a byte string, marked by a `b` before the quote. -/
def quotedBytes (bs : List UInt8) : String :=
  let q := quoteFor (bs.contains 0x27) (bs.contains 0x22)
  String.ofList ('b' :: q :: bs.flatMap (escapeByte q) ++ [q])

end LazyQuery.Text
