import LazyQuery.Batch

/-! The items of a binary message: a nested structure of numbers, texts, lists and maps, each in a
compact form of its own that starts with a byte naming the form. Schemas, types and batches travel
as extension items; their payloads are kept as what they stand for. -/
namespace LazyQuery.Wire

/-- A byte of a message, or the whole of an extension item whose payload is known. -/
inductive Token
  | byte (b : UInt8)
  | schema (s : Schema)
  | type (t : DataType)
  | batch (b : Batch)
deriving DecidableEq

inductive Item
  | null
  | bool (b : Bool)
  | int (i : Int)
  | float (x : Float)
  | text (utf8 : List UInt8)
  | bytes (bs : List UInt8)
  | list (items : List Item)
  | map (entries : List (Item × Item))
  | extension (code : Int) (payload : List UInt8)
  | schema (s : Schema)
  | type (t : DataType)
  | batch (b : Batch)
  /-- Where a message ends too early or holds no item. Nothing after it has been read. -/
  | broken

def bigEndian (width n : Nat) : List UInt8 :=
  ((List.range width).map fun i => UInt8.ofNat (n / 256 ^ i)).reverse

def ofBigEndian (bs : List UInt8) : Nat := bs.foldl (fun n b => 256 * n + b.toNat) 0

/-- The number below `2 ^ (8 * width - 1)` in size that is congruent to `n`. -/
def signed (width n : Nat) : Int := (n : Int).bmod (256 ^ width)

def tokens (bs : List UInt8) : List Token := bs.map .byte

/-- The whole number in the fewest bytes, the first of which says how many follow. -/
def encodeInt (i : Int) : List UInt8 :=
  if 0 ≤ i then
    let n := i.toNat
    if n < 128 then [UInt8.ofNat n]
    else if n < 2 ^ 8 then 0xcc :: bigEndian 1 n
    else if n < 2 ^ 16 then 0xcd :: bigEndian 2 n
    else if n < 2 ^ 32 then 0xce :: bigEndian 4 n
    else 0xcf :: bigEndian 8 n
  else
    let n := (i % 2 ^ 64).toNat
    if -32 ≤ i then [UInt8.ofNat n]
    else if -2 ^ 7 ≤ i then 0xd0 :: bigEndian 1 n
    else if -2 ^ 15 ≤ i then 0xd1 :: bigEndian 2 n
    else if -2 ^ 31 ≤ i then 0xd2 :: bigEndian 4 n
    else 0xd3 :: bigEndian 8 n

/-- The first bytes of an item of `n` parts: one byte for few parts, else a mark and the number in
one, two or four bytes, of which `marks` has those there are. -/
def encodeSize (few limit : Nat) (marks : List (Nat × UInt8)) (n : Nat) : List UInt8 :=
  if n < limit then [UInt8.ofNat (few + n)]
  else
    match marks.find? fun m => n < 256 ^ m.1 with
    | some (width, mark) => mark :: bigEndian width n
    | none => []

def textSize (n : Nat) : List UInt8 := encodeSize 0xa0 32 [(1, 0xd9), (2, 0xda), (4, 0xdb)] n
def bytesSize (n : Nat) : List UInt8 := encodeSize 0 0 [(1, 0xc4), (2, 0xc5), (4, 0xc6)] n
def listSize (n : Nat) : List UInt8 := encodeSize 0x90 16 [(2, 0xdc), (4, 0xdd)] n
def mapSize (n : Nat) : List UInt8 := encodeSize 0x80 16 [(2, 0xde), (4, 0xdf)] n

def extensionSize (n : Nat) : List UInt8 :=
  match n with
  | 1 => [0xd4]
  | 2 => [0xd5]
  | 4 => [0xd6]
  | 8 => [0xd7]
  | 16 => [0xd8]
  | n => encodeSize 0 0 [(1, 0xc7), (2, 0xc8), (4, 0xc9)] n

mutual
def Item.encode : Item → List Token
  | .null => tokens [0xc0]
  | .bool b => tokens [if b then 0xc3 else 0xc2]
  | .int i => tokens (encodeInt i)
  | .float x => tokens (0xcb :: bigEndian 8 x.toBits.toNat)
  | .text bs => tokens (textSize bs.length ++ bs)
  | .bytes bs => tokens (bytesSize bs.length ++ bs)
  | .list items => tokens (listSize items.length) ++ encodeItems items
  | .map entries => tokens (mapSize entries.length) ++ encodeEntries entries
  | .extension code payload =>
    tokens (extensionSize payload.length ++ UInt8.ofNat (code % 256).toNat :: payload)
  | .schema s => [.schema s]
  | .type t => [.type t]
  | .batch b => [.batch b]
  | .broken => []

def encodeItems : List Item → List Token
  | [] => []
  | i :: is => i.encode ++ encodeItems is

def encodeEntries : List (Item × Item) → List Token
  | [] => []
  | (k, v) :: es => k.encode ++ (v.encode ++ encodeEntries es)
end

/-- The first `n` bytes, if so many bytes follow one another. -/
def takeBytes : Nat → List Token → Option (List UInt8 × List Token)
  | 0, ts => some ([], ts)
  | n + 1, .byte b :: ts => (takeBytes n ts).map fun (bs, rest) => (b :: bs, rest)
  | _ + 1, _ => none

/-- A number in `width` bytes. -/
def takeSize (width : Nat) (ts : List Token) : Option (Nat × List Token) :=
  (takeBytes width ts).map fun (bs, rest) => (ofBigEndian bs, rest)

/-- What the first byte of an item says about the rest of it. -/
inductive Form
  | whole (item : Item)
  | unsigned (width : Nat)
  | signed (width : Nat)
  | single
  | double
  | text (size : Nat)
  | textSized (width : Nat)
  | bytesSized (width : Nat)
  | list (size : Nat)
  | listSized (width : Nat)
  | map (size : Nat)
  | mapSized (width : Nat)
  | extension (size : Nat)
  | extensionSized (width : Nat)
  | unknown

def formOf (b : UInt8) : Form :=
  let n := b.toNat
  if n < 0x80 then .whole (.int n)
  else if n < 0x90 then .map (n - 0x80)
  else if n < 0xa0 then .list (n - 0x90)
  else if n < 0xc0 then .text (n - 0xa0)
  else if 0xe0 ≤ n then .whole (.int ((n : Int) - 256))
  else match n with
    | 0xc0 => .whole .null
    | 0xc2 => .whole (.bool false)
    | 0xc3 => .whole (.bool true)
    | 0xc4 => .bytesSized 1
    | 0xc5 => .bytesSized 2
    | 0xc6 => .bytesSized 4
    | 0xc7 => .extensionSized 1
    | 0xc8 => .extensionSized 2
    | 0xc9 => .extensionSized 4
    | 0xca => .single
    | 0xcb => .double
    | 0xcc => .unsigned 1
    | 0xcd => .unsigned 2
    | 0xce => .unsigned 4
    | 0xcf => .unsigned 8
    | 0xd0 => .signed 1
    | 0xd1 => .signed 2
    | 0xd2 => .signed 4
    | 0xd3 => .signed 8
    | 0xd4 => .extension 1
    | 0xd5 => .extension 2
    | 0xd6 => .extension 4
    | 0xd7 => .extension 8
    | 0xd8 => .extension 16
    | 0xd9 => .textSized 1
    | 0xda => .textSized 2
    | 0xdb => .textSized 4
    | 0xdc => .listSized 2
    | 0xdd => .listSized 4
    | 0xde => .mapSized 2
    | 0xdf => .mapSized 4
    | _ => .unknown

def doubleOfSingle (bits : Nat) : Float := (Float32.ofBits (UInt32.ofNat bits)).toFloat

def brokenOff : Item × List Token := (.broken, [])

def sizedBytes (f : List UInt8 → Item) (size : Option (Nat × List Token)) : Item × List Token :=
  match size.bind fun (n, ts) => takeBytes n ts with
  | some (bs, rest) => (f bs, rest)
  | none => brokenOff

def extensionBytes (size : Option (Nat × List Token)) : Item × List Token :=
  sizedBytes (fun bs => match bs with
    | c :: payload => .extension (signed 1 c.toNat) payload
    | [] => .broken) (size.map fun (n, ts) => (n + 1, ts))

def sizedNumber (f : Nat → Item) (width : Nat) (ts : List Token) : Item × List Token :=
  match takeSize width ts with
  | some (n, rest) => (f n, rest)
  | none => brokenOff

mutual
/-- The first item of a message and the rest of it, reading at most `fuel` items deep. -/
def decodeItem : Nat → List Token → Item × List Token
  | 0, _ => brokenOff
  | _ + 1, [] => brokenOff
  | _ + 1, .schema s :: ts => (.schema s, ts)
  | _ + 1, .type t :: ts => (.type t, ts)
  | _ + 1, .batch b :: ts => (.batch b, ts)
  | fuel + 1, .byte b :: ts =>
    match formOf b with
    | .whole item => (item, ts)
    | .unsigned width => sizedNumber (fun n => .int n) width ts
    | .signed width => sizedNumber (fun n => .int (signed width n)) width ts
    | .single => sizedNumber (fun n => .float (doubleOfSingle n)) 4 ts
    | .double => sizedNumber (fun n => .float (Float.ofBits (UInt64.ofNat n))) 8 ts
    | .text n => sizedBytes .text (some (n, ts))
    | .textSized width => sizedBytes .text (takeSize width ts)
    | .bytesSized width => sizedBytes .bytes (takeSize width ts)
    | .extension n => extensionBytes (some (n, ts))
    | .extensionSized width => extensionBytes (takeSize width ts)
    | .list n =>
      let (items, rest) := decodeItems fuel n ts
      (.list items, rest)
    | .listSized width =>
      match takeSize width ts with
      | some (n, ts) =>
        let (items, rest) := decodeItems fuel n ts
        (.list items, rest)
      | none => brokenOff
    | .map n =>
      let (entries, rest) := decodeEntries fuel n ts
      (.map entries, rest)
    | .mapSized width =>
      match takeSize width ts with
      | some (n, ts) =>
        let (entries, rest) := decodeEntries fuel n ts
        (.map entries, rest)
      | none => brokenOff
    | .unknown => brokenOff

/-- The next `n` items. Where the message ends before them, a broken one is the last. -/
def decodeItems : Nat → Nat → List Token → List Item × List Token
  | _, 0, ts => ([], ts)
  | 0, _ + 1, _ => ([.broken], [])
  | _ + 1, _ + 1, [] => ([.broken], [])
  | fuel + 1, n + 1, ts =>
    let (item, ts) := decodeItem fuel ts
    let (items, ts) := decodeItems fuel n ts
    (item :: items, ts)

/-- The next `n` keys with their values. -/
def decodeEntries : Nat → Nat → List Token → List (Item × Item) × List Token
  | _, 0, ts => ([], ts)
  | 0, _ + 1, _ => ([(.broken, .broken)], [])
  | _ + 1, _ + 1, [] => ([(.broken, .broken)], [])
  | fuel + 1, n + 1, ts =>
    let (key, ts) := decodeItem fuel ts
    let (value, ts) := decodeItem fuel ts
    let (entries, ts) := decodeEntries fuel n ts
    ((key, value) :: entries, ts)
end

/-- The first item of a message and what follows it. Every token is an item at most, so twice their
number bounds how deep reading can go. -/
def decode (ts : List Token) : Item × List Token := decodeItem (2 * ts.length + 1) ts

mutual
def Item.isComplete : Item → Bool
  | .broken => false
  | .list items => allComplete items
  | .map entries => entriesComplete entries
  | _ => true

def allComplete : List Item → Bool
  | [] => true
  | i :: is => i.isComplete && allComplete is

def entriesComplete : List (Item × Item) → Bool
  | [] => true
  | (k, v) :: es => k.isComplete && v.isComplete && entriesComplete es
end

def sizeLimit : Nat := 2 ^ 32

mutual
/-- Messages have room for the item: its numbers have a form, and nothing in it
has too many parts. -/
def Item.fits : Item → Bool
  | .int i => -2 ^ 63 ≤ i && i < 2 ^ 64
  | .text bs | .bytes bs => bs.length < sizeLimit
  | .extension code payload => -128 ≤ code && code < 128 && payload.length < sizeLimit
  | .list items => items.length < sizeLimit && allFit items
  | .map entries => entries.length < sizeLimit && entriesFit entries
  | .broken => false
  | .null | .bool _ | .float _ | .schema _ | .type _ | .batch _ => true

def allFit : List Item → Bool
  | [] => true
  | i :: is => i.fits && allFit is

def entriesFit : List (Item × Item) → Bool
  | [] => true
  | (k, v) :: es => k.fits && v.fits && entriesFit es
end

end LazyQuery.Wire
