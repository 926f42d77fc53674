/-! Classes of characters given as sorted runs of code points. -/
namespace LazyQuery.Text

def within (runs : List (Nat × Nat)) (c : Char) : Bool :=
  runs.any fun (low, high) => low ≤ c.toNat && c.toNat ≤ high

end LazyQuery.Text
