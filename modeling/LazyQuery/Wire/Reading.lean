import LazyQuery.Plan
import LazyQuery.Datum.Equality
import LazyQuery.Wire.Writing

/-! Reading requests. Members may come in any order, unknown ones are passed over, and those with a
default may be missing; every other departure from the expected shape is a failure that says where
it is. Of several faults the first in the order of the message is reported. -/
namespace LazyQuery.Wire

/-- What is said of a place in a message; nothing is said of the whole. -/
def placeText (path : String) : String :=
  if path = "" then "" else " - at \x60$" ++ path ++ "\x60"

def wrong {α : Type} (path : String) (f : MessageFault) : Outcome α :=
  .error (.message f (placeText path))

/-- The name of the kind of an item; that of a null depends on what stands there. -/
def Item.kind (null : String) : Item → String
  | .null => null
  | .bool _ => "bool"
  | .int _ => "int"
  | .float _ => "float"
  | .text _ => "str"
  | .bytes _ => "bytes"
  | .list _ => "array"
  | .map _ => "object"
  | .extension .. | .schema _ | .type _ | .batch _ | .broken => "ext"

def unexpected {α : Type} (path expected null : String) : Item → Outcome α
  | .broken => fail .malformedMessage
  | item => wrong path (.wrongKind expected (item.kind null))

def readUtf8 (bs : List UInt8) : Outcome String :=
  match String.fromUTF8? ⟨bs.toArray⟩ with
  | some s => .ok s
  | none => fail .badText

def readKey (path : String) : Item → Outcome (List UInt8)
  | .text bs => .ok bs
  | .broken => fail .malformedMessage
  | item => .error (.message (.wrongKind "str" (item.kind "null"))
      (" - at \x60key\x60 in \x60$" ++ path ++ "\x60"))

/-- An item that nobody asks for only has to be there. -/
def pass (item : Item) : Outcome Unit :=
  if item.isComplete then .ok () else fail .malformedMessage

def named (name : String) (key : List UInt8) : Bool := name.toUTF8.toList = key

def readTag (path : String) : Item → Outcome String
  | .text bs => readUtf8 bs
  | item => unexpected path "str" "null" item

def findTag (tag path : String) : List (Item × Item) → Outcome String
  | [] => wrong path (.missingMember tag)
  | (k, v) :: es => do
    let key ← readKey path k
    if named tag key then readTag (path ++ "." ++ tag) v
    else
      pass v
      findTag tag path es

def readMoment (path : String) (payload : List UInt8) : Outcome Datum :=
  let n := ofBigEndian payload
  match payload.length with
  | 4 => within n 0
  | 8 => within (n % 2 ^ 34) (n / 2 ^ 34)
  | 12 => within (signed 8 (n % 2 ^ 64)) (n / 2 ^ 64)
  | _ => wrong path .badMoment
where
  within (seconds : Int) (nanos : Nat) : Outcome Datum :=
    if 999999999 < nanos then wrong path .tooManyNanos
    else if seconds < -62135596800 || 253402300799 < seconds then wrong path .momentOutOfRange
    else .ok (.moment ⟨seconds * 1000000 + nanos / 1000, some 0⟩)

/-- The value of an extension item whose payload is not known: only points in time have one. -/
def readExtension (path : String) (code : Int) (payload : List UInt8) : Outcome Datum :=
  if code = momentCode then readMoment path payload
  else if 1 ≤ code && code ≤ 3 then fail .invalidData
  else .error (.unknownExtension code)

def putEntry (key value : Datum) : List (Datum × Datum) → List (Datum × Datum)
  | [] => [(key, value)]
  | e :: es => if e.1.equal key then (e.1, value) :: es else e :: putEntry key value es

mutual
def datumOf (path : String) : Item → Outcome Datum
  | .null => .ok .null
  | .bool b => .ok (.bool b)
  | .int i => .ok (.int i)
  | .float x => .ok (.float x)
  | .text bs => do .ok (.text (← readUtf8 bs))
  | .bytes bs => .ok (.bytes bs)
  | .list items => do .ok (.list (← dataOf path 0 items))
  | .map entries => do .ok (.record (← recordOf path [] entries))
  | .extension code payload => readExtension path code payload
  | .schema s => .ok (.schema s)
  | .type t => .ok (.type t)
  | .batch b => .ok (.batch b)
  | .broken => fail .malformedMessage

def dataOf (path : String) (i : Nat) : List Item → Outcome (List Datum)
  | [] => .ok []
  | item :: items => do
    let d ← datumOf (path ++ "[" ++ toString i ++ "]") item
    .ok (d :: (← dataOf path (i + 1) items))

def recordOf (path : String) (found : List (Datum × Datum)) :
    List (Item × Item) → Outcome (List (Datum × Datum))
  | [] => .ok found
  | (k, v) :: es => do
    let key ← datumOf (path ++ "[...]") k
    let value ← datumOf (path ++ "[...]") v
    if key.isKey then recordOf path (putEntry key value found) es else fail .mistyped
end

/-- The nodes that can stand at a place. -/
inductive NodeClass
  | request | literal | expr | plan
deriving DecidableEq

/-- What a member is expected to be. -/
inductive Shape
  | text | int | bool | any | schema | type | batch
  | node (c : NodeClass)
  | list (member : Shape)
  | listOrNull (member : Shape)

/-- What has been read for a member. -/
inductive Slot
  | text (s : String)
  | int (i : Int)
  | bool (b : Bool)
  | any (d : Datum)
  | schema (s : Schema)
  | type (t : DataType)
  | batch (b : Batch)
  | expr (e : Expr)
  | plan (p : Plan)
  | list (slots : List Slot)
  | null

structure Member where
  name : String
  shape : Shape
  default : Option Slot := none

/-- A kind of node: the key for kinds, its own kind, and its members. -/
structure NodeShape where
  tag : String
  kind : String
  members : List Member

namespace NodeShape

def request : NodeShape := ⟨"action", "Collect", [⟨"plan", .node .plan, none⟩]⟩

def inner : Member := ⟨"expr", .node .expr, none⟩

def literal : NodeShape :=
    ⟨"kind", "Literal", [⟨"value", .any, none⟩, ⟨"dtype", .type, none⟩]⟩

def exprs : List NodeShape :=
  [⟨"kind", "Column", [⟨"index", .int, none⟩]⟩,
    literal,
    ⟨"kind", "Wildcard", []⟩,
    ⟨"kind", "AggregateFunction",
      [⟨"name", .text, none⟩, ⟨"args", .list (.node .expr), none⟩,
        ⟨"return_type", .type, none⟩]⟩,
    ⟨"kind", "BinaryExpr",
      [⟨"left", .node .expr, none⟩, ⟨"op", .text, none⟩,
        ⟨"right", .node .expr, none⟩]⟩,
    ⟨"kind", "Not", [inner]⟩,
    ⟨"kind", "IsNull", [inner]⟩,
    ⟨"kind", "IsNotNull", [inner]⟩,
    ⟨"kind", "Cast", [inner, ⟨"dtype", .type, none⟩]⟩,
    ⟨"kind", "Alias", [inner, ⟨"name", .text, none⟩]⟩]

def input : Member := ⟨"input", .node .plan, none⟩
def schema : Member := ⟨"schema", .schema, none⟩

def plans : List NodeShape :=
  [⟨"node", "EmptyRelation", [schema]⟩,
    ⟨"node", "MemoryScan", [⟨"batches", .list .batch, none⟩, schema]⟩,
    ⟨"node", "FileScan",
      [⟨"path", .text, none⟩, ⟨"file_type", .text, none⟩, schema,
        ⟨"projected_schema", .schema, none⟩,
        ⟨"projection", .listOrNull .int, some .null⟩,
        ⟨"has_header", .bool, some (.bool true)⟩,
        ⟨"delimiter", .text, some (.text ",")⟩]⟩,
    ⟨"node", "Projection", [⟨"expr", .list (.node .expr), none⟩, input, schema]⟩,
    ⟨"node", "Selection", [inner, input]⟩,
    ⟨"node", "Limit", [⟨"expr", .node .literal, none⟩, input, schema]⟩,
    ⟨"node", "Aggregate",
      [input, ⟨"group_expr", .list (.node .expr), none⟩,
        ⟨"aggr_expr", .list (.node .expr), none⟩,
        schema]⟩]

def choose (shapes : List NodeShape) (tag path : String) (entries : List (Item × Item)) :
    Outcome NodeShape := do
  let kind ← findTag tag path entries
  match shapes.find? (·.kind = kind) with
  | some s => .ok s
  | none => wrong (path ++ "." ++ tag) (.unknownVariant kind)

/-- The kind of node at a place. Where only one can stand, its kind need not be named. -/
def ofClass (path : String) (entries : List (Item × Item)) : NodeClass → Outcome NodeShape
  | .request => .ok request
  | .literal => .ok literal
  | .expr => choose exprs "kind" path entries
  | .plan => choose plans "node" path entries

end NodeShape

abbrev Slots := List (String × Slot)

namespace Slots

def get? (s : Slots) (name : String) : Option Slot := (s.find? (·.1 = name)).map (·.2)

def text? (s : Slots) (name : String) : Option String :=
  match s.get? name with | some (.text t) => some t | _ => none

def bool? (s : Slots) (name : String) : Option Bool :=
  match s.get? name with | some (.bool b) => some b | _ => none

def int? (s : Slots) (name : String) : Option Int :=
  match s.get? name with | some (.int i) => some i | _ => none

def any? (s : Slots) (name : String) : Option Datum :=
  match s.get? name with | some (.any d) => some d | _ => none

def schema? (s : Slots) (name : String) : Option Schema :=
  match s.get? name with | some (.schema t) => some t | _ => none

def type? (s : Slots) (name : String) : Option DataType :=
  match s.get? name with | some (.type t) => some t | _ => none

def expr? (s : Slots) (name : String) : Option Expr :=
  match s.get? name with | some (.expr e) => some e | _ => none

def plan? (s : Slots) (name : String) : Option Plan :=
  match s.get? name with | some (.plan p) => some p | _ => none

def list? {α : Type} (s : Slots) (name : String) (f : Slot → Option α) : Option (List α) :=
  match s.get? name with | some (.list slots) => slots.mapM f | _ => none

def exprs? (s : Slots) (name : String) : Option (List Expr) :=
  s.list? name fun | .expr e => some e | _ => none

def batches? (s : Slots) (name : String) : Option (List Batch) :=
  s.list? name fun | .batch b => some b | _ => none

def positions? (s : Slots) (name : String) : Option (Option (List Int)) :=
  match s.get? name with
  | some .null => some none
  | _ => (s.list? name fun | .int i => some i | _ => none).map some

end Slots

def buildExpr (kind : String) (s : Slots) : Option Expr := do
  match kind with
  | "Column" => some (.column (← s.int? "index"))
  | "Literal" => some (.literal (← s.any? "value") (← s.type? "dtype"))
  | "Wildcard" => some .wildcard
  | "AggregateFunction" =>
    some (.aggregate (← s.text? "name") (← s.exprs? "args") (← s.type? "return_type"))
  | "BinaryExpr" => some (.binary (← s.expr? "left") (← s.text? "op") (← s.expr? "right"))
  | "Not" => some (.not (← s.expr? "expr"))
  | "IsNull" => some (.isNull (← s.expr? "expr"))
  | "IsNotNull" => some (.isNotNull (← s.expr? "expr"))
  | "Cast" => some (.cast (← s.expr? "expr") (← s.type? "dtype"))
  | "Alias" => some (.alias (← s.expr? "expr") (← s.text? "name"))
  | _ => none

def buildPlan (kind : String) (s : Slots) : Option Plan := do
  match kind with
  | "EmptyRelation" => some (.empty (← s.schema? "schema"))
  | "MemoryScan" => some (.memory (← s.batches? "batches") (← s.schema? "schema"))
  | "FileScan" =>
    some (.file ⟨← s.text? "path", ← s.text? "file_type", ← s.schema? "schema",
      ← s.schema? "projected_schema", ← s.positions? "projection", ← s.bool? "has_header",
      ← s.text? "delimiter"⟩)
  | "Projection" =>
    some (.projection (← s.exprs? "expr") (← s.plan? "input") (← s.schema? "schema"))
  | "Selection" => some (.selection (← s.expr? "expr") (← s.plan? "input"))
  | "Limit" => some (.limit (← s.expr? "expr") (← s.plan? "input") (← s.schema? "schema"))
  | "Aggregate" =>
    some (.aggregate (← s.plan? "input") (← s.exprs? "group_expr") (← s.exprs? "aggr_expr")
      (← s.schema? "schema"))
  | _ => none

def build (c : NodeClass) (kind : String) (s : Slots) : Outcome Slot :=
  let slot := match c with
    | .request => (s.plan? "plan").map .plan
    | .literal | .expr => (buildExpr kind s).map .expr
    | .plan => (buildPlan kind s).map .plan
  match slot with
  | some slot => .ok slot
  | none => fail .malformedMessage

/-- All members of a node in order; of those that were not found the default. -/
def complete (path : String) (found : Slots) : List Member → Outcome Slots
  | [] => .ok []
  | m :: ms =>
    match (found.get? m.name).orElse fun _ => m.default with
    | some slot => do .ok ((m.name, slot) :: (← complete path found ms))
    | none => wrong path (.missingMember m.name)

/-- The kind of a node where it is named must be the expected one. -/
def checkTag (n : NodeShape) (path : String) (v : Item) : Outcome Unit := do
  let kind ← readTag (path ++ "." ++ n.tag) v
  if kind = n.kind then .ok () else wrong (path ++ "." ++ n.tag) (.unknownVariant kind)

def readSchema : Datum → Outcome Slot
  | .schema s => .ok (.schema s)
  | d => .error (.unexpectedValue "<class 'pyarrow.lib.Schema'>" d.kind)

def readType : Datum → Outcome Slot
  | .type t => .ok (.type t)
  | d => .error (.unexpectedValue "<class 'pyarrow.lib.DataType'>" d.kind)

def readBatch : Datum → Outcome Slot
  | .batch b => .ok (.batch b)
  | d => .error (.unexpectedValue "<class 'pyarrow.lib.RecordBatch'>" d.kind)

/-- What can be read without looking at other nodes. -/
def readPlain (shape : Shape) (path : String) (item : Item) : Outcome Slot :=
  match shape, item with
  | .text, .text bs => do .ok (.text (← readUtf8 bs))
  | .int, .int i => .ok (.int i)
  | .bool, .bool b => .ok (.bool b)
  | .listOrNull _, .null => .ok .null
  | .any, item => do .ok (.any (← datumOf path item))
  | .schema, item => do readSchema (← datumOf path item)
  | .type, item => do readType (← datumOf path item)
  | .batch, item => do readBatch (← datumOf path item)
  | .text, item => unexpected path "str" "None" item
  | .int, item => unexpected path "int" "None" item
  | .bool, item => unexpected path "bool" "None" item
  | .node _, item => unexpected path "object" "None" item
  | .list _, item => unexpected path "array" "None" item
  | .listOrNull _, item => unexpected path "array | null" "None" item

mutual
def readSlot (shape : Shape) (path : String) : Item → Outcome Slot
  | .map entries =>
    match shape with
    | .node c => do
      let n ← NodeShape.ofClass path entries c
      let found ← readMembers n path [] entries
      build c n.kind (← complete path found n.members)
    | shape => readPlain shape path (.map entries)
  | .list items =>
    match shape with
    | .list member | .listOrNull member => do .ok (.list (← readSlots member path 0 items))
    | shape => readPlain shape path (.list items)
  | item => readPlain shape path item

def readSlots (shape : Shape) (path : String) (i : Nat) : List Item → Outcome (List Slot)
  | [] => .ok []
  | item :: items => do
    let slot ← readSlot shape (path ++ "[" ++ toString i ++ "]") item
    .ok (slot :: (← readSlots shape path (i + 1) items))

def readMembers (n : NodeShape) (path : String) (found : Slots) :
    List (Item × Item) → Outcome Slots
  | [] => .ok found
  | (k, v) :: es => do
    let key ← readKey path k
    if named n.tag key then
      checkTag n path v
      readMembers n path found es
    else
      match n.members.find? fun m => named m.name key with
      | some m => do
        let slot ← readSlot m.shape (path ++ "." ++ m.name) v
        readMembers n path ((m.name, slot) :: found) es
      | none => do
        pass v
        readMembers n path found es
end

def decodeRequest (ts : List Token) : Outcome Plan := do
  let (item, rest) := decode ts
  match ← readSlot (.node .request) "" item with
  | .plan p => if rest.isEmpty then .ok p else fail .malformedMessage
  | _ => fail .malformedMessage

end LazyQuery.Wire
