import LazyQuery.Fault

/-! The column type a value has when none is declared for it. -/
namespace LazyQuery

def Decimal.measure (d : Decimal) : Nat × Nat :=
  let digits := (toString d.coefficient).length
  if d.exponent < 0 then (max digits d.exponent.natAbs, d.exponent.natAbs)
  else (digits + d.exponent.natAbs, 0)

def decimalType (digits scale : Nat) : Outcome DataType :=
  if digits ≤ 38 then .ok (.leaf (.decimal128 digits scale))
  else if digits ≤ 76 then .ok (.leaf (.decimal256 digits scale))
  else fail .invalidData

/-- The zone of a clock this far from universal time; zones have whole minutes. -/
def zoneOf (offset : Int) : Outcome String :=
  if offset = 0 then .ok "UTC"
  else if offset % 60000000 = 0 then .ok (Calendar.offsetText offset)
  else fail .invalidData

/-- The types that the members of one list can have in common, the strongest first. -/
inductive Trait
  | list | record | decimal | float | int | date | time | moment | span | bool | bytes | text
deriving DecidableEq

namespace Datum

def trait? : Datum → Option Trait
  | .null => none
  | .bool _ => some .bool
  | .int _ => some .int
  | .float _ => some .float
  | .decimal _ => some .decimal
  | .text _ => some .text
  | .bytes _ => some .bytes
  | .date _ => some .date
  | .moment _ => some .moment
  | .time _ => some .time
  | .span _ => some .span
  | .list _ => some .list
  | .record _ => some .record
  | .complex .. | .type _ | .schema _ | .batch _ => none

def fits (t : Trait) (d : Datum) : Outcome Unit :=
  match t, d with
  | _, .null => .ok ()
  | .float, .int i => if i.natAbs ≤ 2 ^ 53 then .ok () else fail .invalidData
  | .decimal, .int _ => .ok ()
  | .bytes, .text _ => .ok ()
  | .date, .moment _ => .ok ()
  | .decimal, .float _ => fail .mistypedData
  | t, d => if d.trait? = some t then .ok () else fail .invalidData

def isHoldable : Datum → Bool
  | .complex .. | .type _ | .schema _ | .batch _ => false
  | _ => true

def strongest (ds : List Datum) : Option Trait :=
  [Trait.list, .record, .decimal, .float, .int, .date, .time, .moment, .span, .bool, .bytes,
    .text].find?
    fun t => ds.any fun d => d.trait? = some t

def commonDecimal (ds : List Datum) : Outcome DataType :=
  let sizes := ds.filterMap fun d => match d with | .decimal x => some x.measure | _ => none
  let scale := (sizes.map (·.2)).foldl max 0
  let whole := (sizes.map fun s => s.1 - s.2).foldl max 0
  decimalType (whole + scale) scale

def leafOfTrait : Trait → DataType
  | .float => .double
  | .int => .int64
  | .date => .date32
  | .time => .leaf (.time64 .micro)
  | .span => .leaf (.duration .micro)
  | .bool => .bool
  | .bytes => .binary
  | _ => .string

def members (ds : List Datum) : List Datum :=
  ds.flatMap fun d => match d with | .list items => items | _ => []

def keyName? : Datum → Option String
  | .text s => some s
  | .bytes bs => String.fromUTF8? ⟨bs.toArray⟩
  | _ => none

def hasKey (key : String) (e : Datum × Datum) : Bool := e.1.keyName? = some key

def keysOf : Datum → List String
  | .record es => es.filterMap fun e => e.1.keyName?
  | _ => []

def isNamed : Datum → Bool
  | .record es => es.all fun e => e.1.keyName?.isSome
  | _ => true

def collapse (ss : List String) : List String :=
  ss.foldr (fun s rest => if rest.head? = some s then rest else s :: rest) []

def commonKeys (ds : List Datum) : List String :=
  collapse ((ds.flatMap keysOf).mergeSort fun a b => a ≤ b)

/-- What the records among the values hold under a key; a record without it holds null. -/
def valuesAt (key : String) (ds : List Datum) : List Datum :=
  ds.filterMap fun d => match d with
    | .record es => some (((es.find? (hasKey key)).map (·.2)).getD .null)
    | _ => none

def momentType (ds : List Datum) : Outcome DataType :=
  match ds.findSome? fun d => match d with | .moment m => m.offset | _ => none with
  | none => .ok (.leaf (.timestamp .micro none))
  | some o => do .ok (.leaf (.timestamp .micro (some (← zoneOf o))))

mutual
def depth : Datum → Nat
  | .list items => itemsDepth items + 1
  | .record es => entriesDepth es + 1
  | _ => 0

def itemsDepth : List Datum → Nat
  | [] => 0
  | d :: ds => max d.depth (itemsDepth ds)

def entriesDepth : List (Datum × Datum) → Nat
  | [] => 0
  | (_, d) :: es => max d.depth (entriesDepth es)
end

def overflows : Datum → Bool
  | .int i | .span i => !IntegerType.int64.holds i
  | _ => false

/-- The type of a column that holds all the values, nested at most `fuel` deep. -/
def commonType : Nat → List Datum → Outcome DataType
  | fuel, ds =>
    match strongest ds with
    | none => if ds.all isHoldable then .ok .null else fail .invalidData
    | some t => do
      if ds.any fun d => !d.isHoldable then fail .invalidData
      ds.forM (fits t)
      match t, fuel with
      | .list, fuel + 1 => do .ok (.list (.item (← commonType fuel (members ds))))
      | .record, fuel + 1 => do
        if ds.any fun d => !d.isNamed then fail .mistypedData
        let fields ← (commonKeys ds).mapM fun key => do
          .ok ⟨key, ← commonType fuel (valuesAt key ds), true⟩
        .ok (.struct fields)
      | .decimal, _ => commonDecimal ds
      | .moment, _ => momentType ds
      | .span, _ =>
        if ds.any overflows then fail .invalidData else .ok (leafOfTrait .span)
      | .int, _ => if ds.any overflows then fail .overflow else .ok .int64
      | t, _ => .ok (leafOfTrait t)

def inferType (d : Datum) : Outcome DataType := commonType d.depth [d]

end Datum
end LazyQuery
