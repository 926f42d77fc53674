import LazyQuery.Fault

/-! Delimited text: lines of fields. A field in double quotes may hold separators, line ends and,
written twice, quotes. -/
namespace LazyQuery.Delimited

/-- The bytes of a field without its quotes, and whether it had any. -/
structure Field where
  content : List UInt8
  quoted : Bool
deriving DecidableEq, Repr

abbrev Line := List Field

/-- Where the reader is: what it has of the current field and line, newest first, and whether a line
has been begun at all. -/
structure Position where
  field : List UInt8 := []
  quoted : Bool := false
  fields : List Field := []
  begun : Bool := false

def Position.endField (p : Position) : Position :=
  { p with field := [], quoted := false, fields := ⟨p.field.reverse, p.quoted⟩ :: p.fields }

def Position.line (p : Position) : Line := p.endField.fields.reverse

/-- What the reader finds: its lines, whether the last one was ended, and whether a quote was left
open. -/
structure Text where
  lines : List Line
  ended : Bool
  unclosed : Bool

def newline : UInt8 := 10
def returnMark : UInt8 := 13
def quoteMark : UInt8 := 34

/-- Where lines end: after a newline, which may follow a return, or after a return alone as well. -/
inductive LineEnd
  | newline | newlineOrReturn
deriving DecidableEq

/-- Reads the bytes after a position; `inside` says whether that position is inside quotes, and
`found` holds the lines before it, newest first. -/
def read (ends : LineEnd) (separator : UInt8) : Position → Bool → List Line → List UInt8 →
    Text
  | p, inside, found, [] =>
    if p.begun then ⟨(p.line :: found).reverse, false, inside⟩
    else ⟨found.reverse, !found.isEmpty, inside⟩
  | p, true, found, b :: bs =>
    if b = quoteMark then
      match bs with
      | c :: cs =>
        if c = quoteMark then
          read ends separator { p with field := quoteMark :: p.field } true found cs
        else read ends separator p false found (c :: cs)
      | [] => read ends separator p false found []
    else read ends separator { p with field := b :: p.field } true found bs
  | p, false, found, b :: bs =>
    if b = newline then read ends separator {} false (p.line :: found) bs
    else if b = returnMark && bs.head? = some newline then
      read ends separator { p with begun := true } false found bs
    else if b = returnMark && ends = .newlineOrReturn then
      read ends separator {} false (p.line :: found) bs
    else if b = separator then read ends separator { p.endField with begun := true } false found bs
    else if b = quoteMark && p.field.isEmpty && !p.quoted then
      read ends separator { p with quoted := true, begun := true } true found bs
    else read ends separator { p with field := b :: p.field, begun := true } false found bs
termination_by _ _ _ bs => bs.length

def encodingMark : List UInt8 := [0xef, 0xbb, 0xbf]

def parse (ends : LineEnd) (separator : UInt8) (bytes : List UInt8) : Text :=
  read ends separator {} false [] (if encodingMark.isPrefixOf bytes then bytes.drop 3 else bytes)

/-- A line with nothing on it. -/
def isBlank (l : Line) : Bool := l = [⟨[], false⟩]

def separatorByte (s : String) : Outcome UInt8 :=
  match s.toList with
  | [c] => if 0 < c.toNat && c.toNat < 128 then .ok (UInt8.ofNat c.toNat) else fail .badValue
  | _ => fail .badValue

end LazyQuery.Delimited
