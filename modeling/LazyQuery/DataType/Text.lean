import LazyQuery.DataType
import LazyQuery.Text.Quoted

/-! The texts of types, fields and schemas. -/
namespace LazyQuery

def TimeUnit.text : TimeUnit → String
  | .second => "s" | .milli => "ms" | .micro => "us" | .nano => "ns"

def IntegerType.text : IntegerType → String
  | .int8 => "int8" | .int16 => "int16" | .int32 => "int32" | .int64 => "int64"
  | .uint8 => "uint8" | .uint16 => "uint16" | .uint32 => "uint32" | .uint64 => "uint64"

def bracketed (name inner : String) : String := name ++ "[" ++ inner ++ "]"

def precisionText (name : String) (precision scale : Int) : String :=
  name ++ "(" ++ toString precision ++ ", " ++ toString scale ++ ")"

def Leaf.text : Leaf → String
  | .null => "null"
  | .bool => "bool"
  | .integer k => k.text
  | .half => "halffloat" | .single => "float" | .double => "double"
  | .string => "string" | .largeString => "large_string" | .stringView => "string_view"
  | .binary => "binary" | .largeBinary => "large_binary"
  | .date32 => "date32[day]" | .date64 => "date64[ms]"
  | .timestamp u none => bracketed "timestamp" u.text
  | .timestamp u (some z) => bracketed "timestamp" (u.text ++ ", tz=" ++ z)
  | .duration u => bracketed "duration" u.text
  | .time32 u => bracketed "time32" u.text
  | .time64 u => bracketed "time64" u.text
  | .monthDayNano => "month_day_nano_interval"
  | .decimal128 p s => precisionText "decimal128" p s
  | .decimal256 p s => precisionText "decimal256" p s
  | .fixedBinary n => bracketed "fixed_size_binary" (toString n)

mutual
def DataType.text : DataType → String
  | .leaf k => k.text
  | .list f => "list<" ++ f.text ++ ">"
  | .largeList f => "large_list<" ++ f.text ++ ">"
  | .fixedList f n => bracketed ("fixed_size_list<" ++ f.text ++ ">") (toString n)
  | .struct fs => "struct<" ++ String.intercalate ", " (fieldTexts fs) ++ ">"
  | .dictionary i v =>
    "dictionary<values=" ++ v.text ++ ", indices=" ++ i.text ++ ", ordered=0>"
  | .map k v => "map<" ++ k.text ++ ", " ++ v.text ++ ">"

/-- Name and type; a field that admits no null says so. -/
def Field.text : Field → String
  | ⟨name, type, nullable⟩ => name ++ ": " ++ type.text ++ if nullable then "" else " not null"

def fieldTexts : List Field → List String
  | [] => []
  | f :: fs => f.text :: fieldTexts fs
end

theorem fieldTexts_eq_map (fs : List Field) : fieldTexts fs = fs.map Field.text := by
  induction fs with
  | nil => rfl
  | cons f fs ih => simp [fieldTexts, ih]

/-- The family a type belongs to, as the text of a type inside a larger value names it. -/
def DataType.family : DataType → String
  | .leaf (.timestamp ..) => "TimestampType"
  | .leaf (.duration _) => "DurationType"
  | .leaf (.time32 _) => "Time32Type"
  | .leaf (.time64 _) => "Time64Type"
  | .leaf (.decimal128 ..) => "Decimal128Type"
  | .leaf (.decimal256 ..) => "Decimal256Type"
  | .leaf (.fixedBinary _) => "FixedSizeBinaryType"
  | .leaf _ => "DataType"
  | .list _ => "ListType"
  | .largeList _ => "LargeListType"
  | .fixedList .. => "FixedSizeListType"
  | .struct _ => "StructType"
  | .dictionary .. => "DictionaryType"
  | .map .. => "MapType"

def DataType.fullText (t : DataType) : String := t.family ++ "(" ++ t.text ++ ")"

def indented (depth : Nat) (s : String) : String :=
  String.ofList (List.replicate (2 * depth) ' ') ++ s

mutual
/-- The lines for the components of a type, each numbered and followed by its own components. -/
def DataType.childLines (depth : Nat) : DataType → List String
  | .leaf _ => []
  | .list f | .largeList f | .fixedList f _ => f.lines depth 0
  | .struct fs => fieldLines depth 0 fs
  | .dictionary .. => []
  | .map k v =>
    indented depth ("child 0, entries: struct<key: " ++ k.text ++ " not null, value: " ++ v.text ++
        "> not null") ::
      (indented (depth + 1) ("child 0, key: " ++ k.text ++ " not null") ::
        k.childLines (depth + 2)) ++
      (indented (depth + 1) ("child 1, value: " ++ v.text) :: v.childLines (depth + 2))

def Field.lines (depth index : Nat) : Field → List String
  | ⟨name, type, nullable⟩ =>
    indented depth ("child " ++ toString index ++ ", " ++ name ++ ": " ++ type.text ++
      if nullable then "" else " not null") :: type.childLines (depth + 1)

def fieldLines (depth index : Nat) : List Field → List String
  | [] => []
  | f :: fs => f.lines depth index ++ fieldLines depth (index + 1) fs
end

def Schema.text (s : Schema) : String :=
  "\n".intercalate (s.flatMap fun f => f.text :: f.type.childLines 1)

end LazyQuery
