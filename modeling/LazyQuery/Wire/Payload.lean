import LazyQuery.Wire.Item
import LazyQuery.Wire.Layout

/-! The payloads of schemas and types. A schema is a table of the tables of its fields, and a field
is a table of its name, the table of its type, and the fields inside that type. A type travels as a
schema with a single field. -/
namespace LazyQuery.Wire

/-- What has been written of a field's type: its components, its kind, its table, and the table of
the numbers that stand for its values, where there are such. -/
structure WrittenType where
  layout : Layout
  children : List Nat
  kind : Nat
  place : Nat
  dictionary : Option Nat := none

def unitCode : TimeUnit → Nat
  | .second => 0 | .milli => 1 | .micro => 2 | .nano => 3

def bitsOf : IntegerType → Nat × Nat
  | .int8 => (8, 1) | .int16 => (16, 1) | .int32 => (32, 1) | .int64 => (64, 1)
  | .uint8 => (8, 0) | .uint16 => (16, 0) | .uint32 => (32, 0) | .uint64 => (64, 0)

/-- A member is left out where it has its default. -/
def unlessDefault (default slot width n : Nat) : List TableMember :=
  if n = default then [] else [.number slot width n]

def integerMembers (k : IntegerType) : List TableMember :=
  .number 0 4 (bitsOf k).1 :: unlessDefault 0 1 1 (bitsOf k).2

def decimalMembers (bits : Nat) (precision scale : Int) : List TableMember :=
  unlessDefault 128 2 4 bits ++ unlessDefault 0 1 4 (scale % 2 ^ 32).toNat ++
    unlessDefault 0 0 4 (precision % 2 ^ 32).toNat

def timeMembers (bits : Nat) (u : TimeUnit) : List TableMember :=
  unlessDefault 32 1 4 bits ++ unlessDefault 1 0 2 (unitCode u)

/-- The kind of a leaf and the members of its table. Time zones are written apart. -/
def leafTable : Leaf → Nat × List TableMember
  | .null => (1, [])
  | .integer k => (2, integerMembers k)
  | .half => (3, [])
  | .single => (3, [.number 0 2 1])
  | .double => (3, [.number 0 2 2])
  | .binary => (4, [])
  | .string => (5, [])
  | .bool => (6, [])
  | .decimal128 p s => (7, decimalMembers 128 p s)
  | .decimal256 p s => (7, decimalMembers 256 p s)
  | .date32 => (8, [.number 0 2 0])
  | .date64 => (8, [])
  | .time32 u => (9, timeMembers 32 u)
  | .time64 u => (9, timeMembers 64 u)
  | .timestamp u _ => (10, unlessDefault 0 0 2 (unitCode u))
  | .monthDayNano => (11, [.number 0 2 2])
  | .fixedBinary n => (15, unlessDefault 0 0 4 n)
  | .duration u => (18, unlessDefault 1 0 2 (unitCode u))
  | .largeBinary => (19, [])
  | .largeString => (20, [])
  | .stringView => (24, [])

def writeTable (kind : Nat) (children : List Nat) (members : List TableMember) (l : Layout) :
    WrittenType :=
  let (l, place) := l.tableAt members
  ⟨l, children, kind, place, none⟩

def writeLeaf (k : Leaf) (l : Layout) : WrittenType :=
  let (kind, members) := leafTable k
  match k with
  | .timestamp _ (some zone) =>
    let l := l.text zone.toUTF8.toList
    writeTable kind [] (.target 1 l.size :: members) l
  | _ => writeTable kind [] members l

def writeNamed (name : String) (nullable : Bool) (w : WrittenType) : Layout × Nat :=
  let l := w.layout.text name.toUTF8.toList
  let namePlace := l.size
  let l := l.references w.children
  let dictionary := match w.dictionary with
    | some place => [.target 4 place]
    | none => []
  l.tableAt (.target 5 l.size :: dictionary ++ [.target 3 w.place, .target 0 namePlace] ++
    .number 2 1 w.kind :: if nullable then [.number 1 1 1] else [])

/-- The table of the numbers that stand for values, with a number of its own. -/
def writeDictionary (k : IntegerType) (w : WrittenType) : WrittenType :=
  let (l, index) := w.layout.tableAt (integerMembers k)
  let (after, place) := l.tableAt (unlessDefault 0 0 8 l.numbered ++ [.target 1 index])
  { w with layout := { after with numbered := l.numbered + 1 }, dictionary := some place }

mutual
def writeType : DataType → Layout → WrittenType
  | .leaf k, l => writeLeaf k l
  | .list f, l =>
    let (l, place) := writeField f l
    writeTable 12 [place] [] l
  | .largeList f, l =>
    let (l, place) := writeField f l
    writeTable 21 [place] [] l
  | .fixedList f n, l =>
    let (l, place) := writeField f l
    writeTable 16 [place] (unlessDefault 0 0 4 n) l
  | .struct fs, l =>
    let (l, places) := writeFields fs l
    writeTable 13 places [] l
  | .dictionary (.leaf (.integer k)) v, l => writeDictionary k (writeType v l)
  | .dictionary _ v, l => writeType v l
  | .map k v, l =>
    let (l, key) := writeNamed "key" false (writeType k l)
    let (l, value) := writeNamed "value" true (writeType v l)
    let (l, entries) := writeNamed "entries" false (writeTable 13 [key, value] [] l)
    writeTable 17 [entries] [] l

def writeField : Field → Layout → Layout × Nat
  | ⟨name, t, nullable⟩, l => writeNamed name nullable (writeType t l)

def writeFields : List Field → Layout → Layout × List Nat
  | [], l => (l, [])
  | f :: fs, l =>
    let (l, place) := writeField f l
    let (l, places) := writeFields fs l
    (l, place :: places)
end

def payloadVersion : Nat := 4
def schemaMark : Nat := 1

/-- A payload starts with four full bytes and its length, and is filled up to a
multiple of eight. -/
def enveloped (bs : List UInt8) : List UInt8 :=
  let filled := (bs.length + 7) / 8 * 8
  List.replicate 4 255 ++ littleEndian 4 filled ++ bs ++ List.replicate (filled - bs.length) 0

def schemaPayload (s : Schema) : List UInt8 :=
  let (l, places) := writeFields s {}
  let l := l.references places
  let (l, fields) := l.tableAt [.target 1 l.size]
  let (l, root) := l.tableAt [.target 2 fields, .number 0 2 payloadVersion, .number 1 1 schemaMark]
  enveloped (l.finish root)

def typePayload (t : DataType) : List UInt8 := schemaPayload [.item t]

def schemaCode : UInt8 := 1
def typeCode : UInt8 := 2
def batchCode : UInt8 := 3

def extensionItem (code : UInt8) (payload : List UInt8) : List UInt8 :=
  extensionSize payload.length ++ code :: payload

/-- The bytes that a token stands for. -/
def Token.bytes : Token → List UInt8
  | .byte b => [b]
  | .schema s => extensionItem schemaCode (schemaPayload s)
  | .type t => extensionItem typeCode (typePayload t)
  | .batch b => extensionItem batchCode (schemaPayload b.schema)

end LazyQuery.Wire
