/-! Patterns of names. A name between a circumflex and a dollar sign is asked for as a regular
expression. Branches, groups, repetitions and classes of single characters are read. Counts, flags,
and classes that have a name are not: such a pattern is refused like one that is not well formed. -/
namespace LazyQuery.Engine

def isPattern (name : String) : Bool :=
  name.toList.head? = some '^' && name.toList.getLast? = some '$'

inductive Pattern
  | empty
  | start
  | finish
  | oneOf (negated : Bool) (ranges : List (Char × Char))
  | next (first second : Pattern)
  | either (left right : Pattern)
  | many (inner : Pattern)

namespace Pattern

/-- The positions that up to `n` steps lead to. -/
def within (step : Nat → List Nat) : Nat → List Nat → List Nat
  | 0, found => found
  | n + 1, found => within step n (found ++ found.flatMap step).eraseDups

def ends (text : List Char) : Pattern → Nat → List Nat
  | .empty, i => [i]
  | .start, i => if i = 0 then [i] else []
  | .finish, i => if i = text.length then [i] else []
  | .oneOf negated ranges, i =>
    match text[i]? with
    | some c => if ranges.any (fun r => r.1 ≤ c && c ≤ r.2) = negated then [] else [i + 1]
    | none => []
  | .next p q, i => ((p.ends text i).flatMap (q.ends text)).eraseDups
  | .either p q, i => p.ends text i ++ q.ends text i
  | .many p, i => within (p.ends text) text.length [i]

def occurs (p : Pattern) (text : List Char) : Bool :=
  (List.range (text.length + 1)).any fun i => !(p.ends text i).isEmpty

/-- A group that is being read: the branches before the last one, and the items of
that, latest first. -/
structure Group where
  branches : List Pattern := []
  items : List Pattern := []

namespace Group

def push (g : Group) (p : Pattern) : Group := { g with items := p :: g.items }

def last (g : Group) : Pattern := g.items.reverse.foldr .next .empty

def branch (g : Group) : Group := ⟨g.branches ++ [g.last], []⟩

def close (g : Group) : Pattern := g.branches.foldr .either g.last

/-- The latest item repeated; there has to be one. -/
def repeated (g : Group) (f : Pattern → Pattern) : Option Group :=
  match g.items with
  | p :: ps => some { g with items := f p :: ps }
  | [] => none

end Group

def atLeastOnce (p : Pattern) : Pattern := .next p (.many p)

def atMostOnce (p : Pattern) : Pattern := .either p .empty

/-- Characters that stand for themselves behind a backslash. -/
def isEscapable (c : Char) : Bool := "\\.+*?()|[]\x7b\x7d^$#&-~/".toList.contains c

/-- Characters that may stand for themselves in a class. -/
def isMember (c : Char) : Bool := !"[]\\^&~-".toList.contains c

/-- Reads on in a group, the groups around it being open, and in a class of characters
if there is one. -/
def readFrom (outer : List Group) (g : Group) :
    Option (Bool × List (Char × Char)) → List Char → Option Pattern
  | some (negated, ranges), ']' :: cs =>
    if ranges.isEmpty then none else readFrom outer (g.push (.oneOf negated ranges)) none cs
  | some (negated, ranges), a :: '-' :: b :: cs =>
    if isMember a && isMember b && a ≤ b then readFrom outer g (some (negated, (a, b) :: ranges))
      cs
    else none
  | some (negated, ranges), a :: cs =>
    if isMember a then readFrom outer g (some (negated, (a, a) :: ranges)) cs else none
  | none, '[' :: '^' :: cs => readFrom outer g (some (true, [])) cs
  | none, '[' :: cs => readFrom outer g (some (false, [])) cs
  | none, '(' :: '?' :: ':' :: cs => readFrom (g :: outer) {} none cs
  | none, '(' :: '?' :: _ => none
  | none, '(' :: cs => readFrom (g :: outer) {} none cs
  | none, ')' :: cs =>
    match outer with
    | h :: outer => readFrom outer (h.push g.close) none cs
    | [] => none
  | none, '|' :: cs => readFrom outer g.branch none cs
  | none, '*' :: '?' :: cs | none, '*' :: cs => (g.repeated .many).bind fun g =>
      readFrom outer g none cs
  | none, '+' :: '?' :: cs | none, '+' :: cs =>
    (g.repeated atLeastOnce).bind fun g => readFrom outer g none cs
  | none, '?' :: '?' :: cs | none, '?' :: cs =>
    (g.repeated atMostOnce).bind fun g => readFrom outer g none cs
  | none, '.' :: cs => readFrom outer (g.push (.oneOf true [('\n', '\n')])) none cs
  | none, '^' :: cs => readFrom outer (g.push .start) none cs
  | none, '$' :: cs => readFrom outer (g.push .finish) none cs
  | none, '\\' :: c :: cs =>
    if isEscapable c then readFrom outer (g.push (.oneOf false [(c, c)])) none cs else none
  | none, c :: cs =>
    if "\\\x7b".toList.contains c then none
    else readFrom outer (g.push (.oneOf false [(c, c)])) none cs
  | none, [] => if outer.isEmpty then some g.close else none
  | some _, [] => none

def ofName? (name : String) : Option Pattern := readFrom [] {} none name.toList

end Pattern
end LazyQuery.Engine
