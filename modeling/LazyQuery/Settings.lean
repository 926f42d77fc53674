import LazyQuery.Datum.Equality
import LazyQuery.Fault
import LazyQuery.Number.Reader

/-! Settings: what the user overrides, what the catalog gives by default, and the numbers read from
them. An override always wins, and a value that cannot be read is never replaced by a default. -/
namespace LazyQuery

abbrev Assignments := List (String × Datum)

namespace Assignments

def get? (a : Assignments) (key : String) : Option Datum :=
  (a.find? (·.1 = key)).map (·.2)

/-- Replaces the value of a known key, or adds the key at the end. -/
def put (key : String) (value : Datum) : Assignments → Assignments
  | [] => [(key, value)]
  | e :: a => if e.1 = key then (key, value) :: a else e :: put key value a

def ofList (es : List (String × Datum)) : Assignments := es.foldl (fun a e => put e.1 e.2 a) []

theorem get?_put_self (a : Assignments) (key : String) (value : Datum) :
    (put key value a).get? key = some value := by
  induction a with
  | nil => simp [put, get?]
  | cons e a ih => by_cases h : e.1 = key <;> simp_all [put, get?]

theorem get?_put_of_ne {key other : String} (h : other ≠ key) (a : Assignments) (value : Datum) :
    (put key value a).get? other = a.get? other := by
  induction a with
  | nil => simp [put, get?, Ne.symm h]
  | cons e a ih => by_cases he : e.1 = key <;> by_cases ho : e.1 = other <;> simp_all [put, get?]

def text (a : Assignments) : String :=
  (Datum.record (a.map fun e => (.text e.1, e.2))).exact

def equal (a b : Assignments) : Bool :=
  (Datum.record (a.map fun e => (.text e.1, e.2))).equal
    (.record (b.map fun e => (.text e.1, e.2)))

end Assignments

/-- A known setting. -/
structure Setting where
  key : String
  description : String
  default : Datum

def batchSizeKey : String := "ballista.csv.batchSize"

/-- The settings known without a catalog of one's own. -/
def standardCatalog : List (String × Setting) :=
  [(batchSizeKey, ⟨batchSizeKey, "Number of rows to read per batch", .text "1024"⟩)]

structure Settings where
  overrides : Assignments
  catalog : List (String × Setting) := standardCatalog

/-- The number that a text denotes: blanks around it are ignored, and all else must be decimal
digits. Nothing where the text is no such numeral; a failure where it has too many digits. -/
def readCount (text : List Char) : Outcome (Option Nat) :=
  let digits := Text.strip text
  if !Text.isNumeral digits then .ok none
  else if Number.digitLimit < digits.length then fail .badValue
  else .ok (some (Text.denote digits))

namespace Settings

/-- The override of a key, else its default; null where there is neither. -/
def get (s : Settings) (key : String) : Datum :=
  match s.overrides.get? key with
  | some v => v
  | none => ((s.catalog.find? (·.1 = key)).map (·.2.default)).getD .null

def getCount? (s : Settings) (key : String) : Outcome (Option Nat) :=
  match s.get key with
  | .null => .ok none
  | .text t => do
    match ← readCount t.toList with
    | some n => .ok (some n)
    | none => .error (.configuration (.notANumber key (.text t)))
  | _ => fail .missingMember

/-- The number of rows in a batch, at least one. -/
def batchSize (s : Settings) : Outcome Nat := do
  match ← s.getCount? batchSizeKey with
  | some (n + 1) => .ok (n + 1)
  | size => .error (.configuration (.notPositive batchSizeKey size))

/-- Every known setting in alphabetical order: key, value in effect, description. -/
def describe (s : Settings) : List (String × Datum × String) :=
  (s.catalog.mergeSort fun a b => a.1 ≤ b.1).map fun (key, setting) =>
    (key, s.get key, setting.description)

theorem batchSize_pos {s : Settings} {n : Nat} (h : s.batchSize = .ok n) : 0 < n := by
  unfold batchSize at h
  cases hc : s.getCount? batchSizeKey with
  | error f => simp [hc, bind, Except.bind] at h
  | ok size =>
    match size with
    | none => simp [hc, bind, Except.bind] at h
    | some 0 => simp [hc, bind, Except.bind] at h
    | some (m + 1) =>
      simp [hc, bind, Except.bind] at h
      omega

end Settings

def Setting.text (s : Setting) : String :=
  "ConfigSetting(key=" ++ Text.quoted s.key ++ ", description=" ++ Text.quoted s.description ++
    ", default_value=" ++ s.default.exact ++ ")"

/-- A port number: what the plain text of a value denotes, at most 65535. -/
def readPort (value : Datum) (source : String) : Outcome Nat := do
  match ← readCount value.plain.toList with
  | some n =>
    if n ≤ 65535 then .ok n else .error (.configuration (.badPort source value))
  | none => .error (.configuration (.badPort source value))

end LazyQuery
