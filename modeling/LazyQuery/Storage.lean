import LazyQuery.DataType.Conversion

/-! What a columnar file keeps of a batch. Some types are held as others: nothing is counted in
seconds of a day or of an era but in milliseconds, days are counted as days, and the numbers that
stand for texts have one width. Members of lists have a name of their own. -/
namespace LazyQuery

def DataType.isNumbered : DataType → Bool
  | .leaf .string | .leaf .binary => true
  | _ => false

mutual
def DataType.inStorage : DataType → DataType
  | .leaf (.timestamp .second z) => .leaf (.timestamp .milli z)
  | .leaf (.time32 .second) => .leaf (.time32 .milli)
  | .leaf .date64 => .date32
  | .leaf k => .leaf k
  | .list f => .list f.asElement
  | .largeList f => .largeList f.asElement
  | .fixedList f n => .fixedList f.asElement n
  | .struct fs => .struct (fieldsInStorage fs)
  | .dictionary _ v =>
    if v.isNumbered then .dictionary (.leaf (.integer .int32)) v else v.inStorage
  | .map k v => .map k.inStorage v.inStorage

def Field.asElement : Field → Field
  | ⟨_, t, nullable⟩ => ⟨"element", t.inStorage, nullable⟩

def fieldsInStorage : List Field → List Field
  | [] => []
  | ⟨name, t, nullable⟩ :: fs => ⟨name, t.inStorage, nullable⟩ :: fieldsInStorage fs
end

/-- The batch that is read back from a file to which this one has been written. -/
def Batch.inStorage (b : Batch) : Batch :=
  let s := fieldsInStorage b.schema
  let converted := (b.schema.zip (s.zip b.columns)).mapM fun (f, g, cells) =>
    f.type.convert g.type cells
  match converted with
  | .ok columns => (Batch.ofColumns? s columns).getD b
  | .error _ => b

end LazyQuery
