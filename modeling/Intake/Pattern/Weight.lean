import Intake.Pattern.Basic
import Std.Data.HashMap

/-! The weight of a pattern: the room that two automata for it take which read the bytes of a
text, one forwards with the groups and one backwards without them. They are laid out state by
state, and only as far as they are light enough. Sets share states through a table of few places,
where a later state takes the place of an earlier one. -/
namespace Intake.Pattern

def stateWeight : Nat := 32
def linkWeight : Nat := 8
def wayWeight : Nat := 4
def weightLimit : Nat := 10 * (1 <<< 20)

/- The states laid out, and what their links and ways weigh beside them. -/
structure Layout where
  states : Nat
  others : Nat
  deriving DecidableEq, Repr

def Layout.weight (l : Layout) : Nat := l.states * stateWeight + l.others

abbrev Lays := StateT Layout Option

namespace Lays

def lay (states others : Nat) : Lays Unit := fun l =>
  let laid : Layout := ⟨l.states + states, l.others + others⟩
  if laid.weight ≤ weightLimit then some ((), laid) else none

/- A state with so many links, known by the number of those before it. -/
def state (links : Nat) : Lays Nat := do
  let number := (← get).states
  lay 1 (links * linkWeight)
  return number

def ways (n : Nat) : Lays Unit := lay 0 (n * wayWeight)

/- A state with two ways to go on. -/
def fork : Lays Unit := lay 1 (2 * wayWeight)

def repeated (body : Lays Unit) : Nat → Lays Unit
  | 0 => pure ()
  | n + 1 => do
    body
    repeated body n

end Lays

open Lays

def codeBytes (n : Nat) : List Nat :=
  if n < 0x80 then [n]
  else if n < 0x800 then [0xC0 + n / 0x40, 0x80 + n % 0x40]
  else if n < 0x10000 then [0xE0 + n / 0x1000, 0x80 + n / 0x40 % 0x40, 0x80 + n % 0x40]
  else [0xF0 + n / 0x40000, 0x80 + n / 0x1000 % 0x40, 0x80 + n / 0x40 % 0x40, 0x80 + n % 0x40]

/- Bytes in the same place of several code points. -/
abbrev ByteRow := List Range

/- The last code point of the part to cut off, as long as the bytes of a range are not
independent of each other: one length first, then whole blocks of 64, of 64 times 64 and on. -/
def cut? (first last : Nat) : Option Nat :=
  match [0x7F, 0x7FF, 0xFFFF].find? (fun n => decide (first ≤ n ∧ n < last)) with
  | some n => some n
  | none =>
    if last ≤ 0x7F then none
    else [0x40, 0x1000, 0x40000].findSome? (fun block =>
      if first / block = last / block then none
      else if first % block ≠ 0 then some (first / block * block + block - 1)
      else if last % block ≠ block - 1 then some (last / block * block - 1)
      else none)

/- A range is cut at most three times by length and twice for each block. -/
def rowsBetween : Nat → Nat → Nat → List ByteRow
  | 0, _, _ => []
  | fuel + 1, first, last =>
    if last < first then []
    else match cut? first last with
      | some n => rowsBetween fuel first n ++ rowsBetween fuel (n + 1) last
      | none => [(codeBytes first).zipWith Range.mk (codeBytes last)]

/- The rows of bytes in ascending order; surrogates have none. -/
def byteRows (s : CharSet) : List ByteRow :=
  s.ranges.flatMap (fun r =>
    rowsBetween 16 r.first (min r.last 0xD7FF) ++ rowsBetween 16 (max r.first 0xE000) r.last)

/- Rows by their first ranges, with what follows in each. -/
def openings (rows : List ByteRow) : List (List ByteRow) :=
  rows.splitBy (fun a b => a.head? == b.head?)

/- States by what leads on from them, each in the place that its key is scattered to. -/
abbrev Shared := Std.HashMap UInt64 (List Nat × Nat)

def scatter (key : List Nat) : UInt64 :=
  key.foldl (fun h n => (h ^^^ n.toUInt64) * 1099511628211) 14695981039346656037

def share (places : UInt64) (key : List Nat) (links : Nat) (table : Shared) :
    Lays (Nat × Shared) := do
  let place := scatter key % places
  let found := match table[place]? with
    | some (other, number) => if other = key then some number else none
    | none => none
  match found with
  | some number => return (number, table)
  | none =>
    let number ← state links
    return (number, table.insert place (key, number))

mutual
/- The state from which rows lead to the last one: states with equal links are one. -/
def layRows (last : Nat) : Nat → List ByteRow → Shared → Lays (Nat × Shared)
  | 0, _, table => return (last, table)
  | depth + 1, rows, table => do
    if rows.all List.isEmpty then return (last, table)
    let parts := openings rows
    let (key, table) ← layParts last depth parts table
    share 10000 key parts.length table

def layParts (last : Nat) : Nat → List (List ByteRow) → Shared → Lays (List Nat × Shared)
  | _, [], table => return ([], table)
  | depth, part :: rest, table => do
    let (next, table) ← layRows last depth (part.map List.tail) table
    let (key, table) ← layParts last depth rest table
    match part.head?.bind List.head? with
    | some r => return (r.first :: r.last :: next :: key, table)
    | none => return (key, table)
end

/- Backwards, rows that begin alike share the states of their beginnings. -/
def layBack (last : Nat) (row : ByteRow) (table : Shared) : Lays (Nat × Shared) :=
  row.foldlM (fun (number, table) r => share 1000 [number, r.first, r.last] 0 table) (last, table)

def laySet (backward : Bool) (s : CharSet) : Lays Unit := do
  match s.only? with
  | some n => lay (codeBytes n).length 0
  | none =>
    if s.ranges.all (fun r => decide (r.last < 0x80)) then
      lay 2 (if s.ranges.length = 1 then 0 else linkWeight * s.ranges.length)
    else if backward then
      lay 1 0
      let last ← state 0
      discard <| (byteRows s).foldlM (fun table row => do
        let (_, table) ← layBack last row table
        ways 1
        return table) ∅
    else
      let last ← state 0
      discard <| layRows last 5 (byteRows s) ∅

/- The bytes of a pattern that is one fixed text. -/
def fixedBytes? (p : Pattern) : Option (List Nat) :=
  if p.items.isEmpty then none
  else (p.items.mapM (fun (q : Pattern) => q.set?.bind CharSet.only?)).map (·.flatMap codeBytes)

/- Texts that begin alike share their beginning, up to where one of them ends. Such an end adds
nothing where there is one and nothing follows. -/
def layTree : Nat → List (List Nat) → Lays Unit
  | 0, _ => pure ()
  | fuel + 1, texts => do
    let parts := texts.splitBy (fun a b => !a.isEmpty && !b.isEmpty)
    let (leading, others) := parts.span (fun part => part.all List.isEmpty)
    let ends := min leading.length 1 + others.countP (fun part => part.all List.isEmpty)
    let full := others.filter (fun part => !part.all List.isEmpty)
    full.forM (fun part => do
      let heads := (part.filterMap List.head?).eraseDups
      heads.forM (fun b => do
        let rests := (part.filter (fun t => t.head? == some b)).map List.tail
        if rests.all List.isEmpty then return else layTree fuel rests)
      lay 1 (if heads.length = 1 then 0 else linkWeight * heads.length))
    lay 1 (wayWeight * (full.length + ends))

def layTexts (backward : Bool) (texts : List (List Nat)) : Lays Unit := do
  lay 1 0
  layTree ((texts.map List.length).foldl max 0 + 1)
    (if backward then texts.map List.reverse else texts)

/- Alternatives go from one state to another; both are laid out once there are two of them,
which is what `joined` stands for within a choice. -/
def layOut (backward : Bool) : Pattern → Option (Lays Unit) → Lays Unit
  | alt p q, joined => do
    match joined, (alt p q).branches.mapM fixedBytes? with
    | none, some texts => layTexts backward texts
    | none, none =>
      layOut backward p none
      layOut backward q (some (lay 2 (2 * wayWeight)))
    | some join, _ =>
      layOut backward p none
      join
      layOut backward q (some (ways 1))
  | empty, joined | edge _, joined => do
    lay 1 0
    joined.getD (pure ())
  | one s, joined => do
    laySet backward s
    joined.getD (pure ())
  | seq p q, joined => do
    if backward then
      layOut backward q none
      layOut backward p none
    else
      layOut backward p none
      layOut backward q none
    joined.getD (pure ())
  | times low none _ p, joined => do
    match low with
    | 0 =>
      if p.advances then
        fork
        layOut backward p none
      else
        layOut backward p none
        fork
        fork
        lay 1 0
    | n + 1 =>
      repeated (layOut backward p none) (n + 1)
      fork
    joined.getD (pure ())
  | times low (some high) _ p, joined => do
    if low = high then repeated (layOut backward p none) low
    else
      if low = 0 ∧ high ≠ 1 then lay 1 0 else repeated (layOut backward p none) low
      lay 1 0
      repeated (do fork; layOut backward p none) (high - low)
    joined.getD (pure ())
  | group _ p, joined => do
    if backward then layOut backward p none
    else
      lay 1 0
      layOut backward p none
      lay 1 0
    joined.getD (pure ())

/- Whether a pattern matches only from an edge on. -/
def opensAt (e : Edge) : Pattern → Bool
  | empty | one _ => false
  | edge d => d == e
  | seq p q => opensAt e p || (p.onlyEmpty && opensAt e q)
  | alt p q => opensAt e p && opensAt e q
  | times low _ _ p => low != 0 && opensAt e p
  | group _ p => opensAt e p

def closesAt (e : Edge) : Pattern → Bool
  | empty | one _ => false
  | edge d => d == e
  | seq p q => closesAt e q || (q.onlyEmpty && closesAt e p)
  | alt p q => closesAt e p && closesAt e q
  | times low _ _ p => low != 0 && closesAt e p
  | group _ p => closesAt e p

/- What goes before a match, unless it is bound to an end of the text. -/
def layLead (bound : Bool) : Lays Unit :=
  if bound then lay 1 0
  else do
    fork
    lay 2 0

def layWhole (backward : Bool) (p : Pattern) : Lays Unit := do
  if backward then
    layLead (p.closesAt .textEnd)
    layOut true p none
  else
    layLead (p.opensAt .textStart)
    layOut false (group 0 p) none
  lay 1 0

def isLight (p : Pattern) : Bool :=
  ((layWhole false p).run ⟨0, 0⟩).isSome && ((layWhole true p).run ⟨0, 0⟩).isSome

end Intake.Pattern
