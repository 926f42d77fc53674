import LazyQuery.Proofs.Engine.Bounding
import LazyQuery.Proofs.Frame.Filtering

/-! Limits. The rows of a limited frame are the first rows of the frame, two limits are the tighter
one, and a limit may stand on either side of a projection. Only a limit to one row can change what
is in that row, where it reaches a division by a value for all rows. -/
namespace LazyQuery
open Engine

namespace Opened
variable {o : Opened}

end Opened

namespace Plan
variable {files : Files} {p : Plan} {o : Opened} {t : Table}

end Plan

namespace Frame
variable {files : Files} {settings : Assignments} {f g h k : Frame} {s : Schema} {n m : Nat}

def shares (xs : List Float) : Frame where
  plan := .projection [share] (numbers xs).plan [⟨"share", .double, true⟩]
  context := .here [] .standard

end Frame
end LazyQuery
