import LazyQuery.Text.Range

/-! White space: the class of characters, and what is left of a text without it at both ends. -/
namespace LazyQuery.Text

/-- The separators and the space-like controls, the four information separators among them. -/
def blankRuns : List (Nat × Nat) := [
  (0x9, 0xd), (0x1c, 0x20), (0x85, 0x85), (0xa0, 0xa0), (0x1680, 0x1680), (0x2000, 0x200a),
  (0x2028, 0x2029), (0x202f, 0x202f), (0x205f, 0x205f), (0x3000, 0x3000)]

def isBlank (c : Char) : Bool := within blankRuns c

def strip (cs : List Char) : List Char :=
  ((cs.dropWhile isBlank).reverse.dropWhile isBlank).reverse

end LazyQuery.Text
