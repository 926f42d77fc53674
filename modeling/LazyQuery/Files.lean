import LazyQuery.Fault

/-! Files as far as queries can see them: by path, either bytes or a stored batch of columns. -/
namespace LazyQuery

inductive FileContent
  | bytes (content : List UInt8)
  | columnar (batch : Batch)

abbrev Files := List (String × FileContent)

namespace Files

def find (fs : Files) (path : String) : Outcome FileContent :=
  match fs.find? (·.1 = path) with
  | some e => .ok e.2
  | none => fail .missingFile

def put (path : String) (content : FileContent) (fs : Files) : Files :=
  (path, content) :: fs.filter (·.1 ≠ path)

def remove (path : String) (fs : Files) : Files := fs.filter (·.1 ≠ path)

end Files
end LazyQuery
