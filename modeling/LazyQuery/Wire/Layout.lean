import LazyQuery.Number.Rounding

/-! Nested tables in one run of bytes, written from its end. Places are told by their distance from
the end. A table starts with the way to its layout, which says where each of its members is; tables
of one shape share their layout. -/
namespace LazyQuery.Wire

def littleEndian (width n : Nat) : List UInt8 :=
  (List.range width).map fun i => UInt8.ofNat (n / 256 ^ i)

/-- The bytes written so far, the layouts among them, the strictest alignment that was asked for,
and how many numbered members have been given out. -/
structure Layout where
  bytes : List UInt8 := []
  layouts : List Nat := []
  alignment : Nat := 1
  numbered : Nat := 0

/-- A member of a table, by its slot: a number or the way to something written before. -/
inductive TableMember
  | number (slot width n : Nat)
  | target (slot place : Nat)

namespace Layout

def size (l : Layout) : Nat := l.bytes.length

def push (bs : List UInt8) (l : Layout) : Layout := { l with bytes := bs ++ l.bytes }

/-- Zeroes, so that after `extra` more bytes the place is a multiple of `width`. -/
def align (extra width : Nat) (l : Layout) : Layout :=
  let rest := (l.size + extra) % width
  { l.push (List.replicate (if rest = 0 then 0 else width - rest) 0) with
    alignment := max l.alignment width }

def number (width n : Nat) (l : Layout) : Layout := (l.align 0 width).push (littleEndian width n)

def reference (place : Nat) (l : Layout) : Layout :=
  let l := l.align 0 4
  l.push (littleEndian 4 (l.size + 4 - place))

def text (utf8 : List UInt8) (l : Layout) : Layout :=
  (((l.align (utf8.length + 1) 4).push [0]).push utf8).number 4 utf8.length

def references (places : List Nat) (l : Layout) : Layout :=
  (places.foldr reference (l.align (4 * places.length) 4)).number 4 places.length

def member (state : Layout × List (Nat × Nat)) (m : TableMember) : Layout × List (Nat × Nat) :=
  match m with
  | .number slot width n =>
    let l := state.1.number width n
    (l, (slot, l.size) :: state.2)
  | .target slot place =>
    let l := state.1.reference place
    (l, (slot, l.size) :: state.2)

/-- Where each slot is in a table that starts at `place` and has the given extent. -/
def layoutBytes (place extent : Nat) (found : List (Nat × Nat)) : List UInt8 :=
  let count := (found.map fun e => e.1 + 1).foldl max 0
  let slots := (List.range count).flatMap fun i =>
    littleEndian 2 (((found.find? (·.1 = i)).map fun e => place - e.2).getD 0)
  littleEndian 2 (4 + 2 * count) ++ littleEndian 2 extent ++ slots

def table (members : List TableMember) (l : Layout) : Layout :=
  let start := l.size
  let (l, found) := members.foldl member (l, [])
  let l := l.align 0 4
  let place := l.size + 4
  let layout := layoutBytes place (place - start) found
  match l.layouts.find? fun v => (l.bytes.drop (l.size - v)).take layout.length = layout with
  | some v =>
    l.push (littleEndian 4 (if place ≤ v then v - place else 2 ^ 32 - (place - v)))
  | none =>
    let l := (l.push (littleEndian 4 layout.length)).push layout
    { l with layouts := l.layouts ++ [l.size] }

/-- The place of a table just written: its layout, if it is new, comes before it. -/
def tablePlace (before after : Layout) : Nat :=
  if before.layouts.length < after.layouts.length then
    let l := after.bytes
    after.size - (match l with | a :: b :: _ => a.toNat + 256 * b.toNat | _ => 0)
  else after.size

def tableAt (members : List TableMember) (l : Layout) : Layout × Nat :=
  let after := l.table members
  (after, tablePlace l after)

def finish (root : Nat) (l : Layout) : List UInt8 :=
  ((l.align 4 l.alignment).reference root).bytes

end Layout
end LazyQuery.Wire
