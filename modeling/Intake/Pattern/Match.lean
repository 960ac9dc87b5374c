import Intake.Pattern.Code
import Intake.Text.Basic
import Std.Data.HashSet

/-! Matching. Code is run from a place in a text along preferred ways first; a fork that was met
at a place before is not met there again, for it leads nowhere new. Searching goes from left to
right and never looks back behind the end of the last match. -/
namespace Intake.Pattern

/- A place in a text: the bytes before it and its two neighbours. -/
structure Place where
  offset : Nat
  before : Option Char
  rest : Text
  deriving DecidableEq, Repr

namespace Place

/- Beyond the ends of the text there is no word. -/
def inWord (c : Option Char) : Bool := c.any CharSet.word.holds

def meets (pl : Place) : Edge → Bool
  | .textStart => pl.before.isNone
  | .textEnd => pl.rest.isEmpty
  | .lineStart => pl.before.all (· == '\n')
  | .lineEnd => pl.rest.head?.all (· == '\n')
  | .word => inWord pl.before != inWord pl.rest.head?
  | .notWord => inWord pl.before == inWord pl.rest.head?

end Place

/- Where a group opened or closed. -/
structure Mark where
  index : Nat
  closes : Bool
  offset : Nat
  deriving DecidableEq, Repr

/- A way to the end of the code: where it ends, and the marks on it in order. -/
structure Way where
  stop : Nat
  marks : List Mark
  deriving DecidableEq, Repr

def Way.push (m : Mark) (w : Way) : Way := { w with marks := m :: w.marks }

/- Forks that were met. -/
abbrev Met := Std.HashSet Nat

/- One number for an address of the code and an offset. -/
def visit (code : Array Instr) (address offset : Nat) : Nat := offset * code.size + address

theorem visitInjective {code : Array Instr} {a b m n : Nat} (ha : a < code.size)
    (hb : b < code.size) (h : visit code a m = visit code b n) : a = b ∧ m = n := by
  unfold visit at h
  have first := congrArg (· % code.size) h
  have second := congrArg (· / code.size) h
  simp only [Nat.mul_add_mod_self_right, Nat.mod_eq_of_lt ha, Nat.mod_eq_of_lt hb] at first
  have positive : 0 < code.size := by omega
  simp only [Nat.mul_comm _ code.size, Nat.mul_add_div positive, Nat.div_eq_of_lt ha,
    Nat.div_eq_of_lt hb, Nat.add_zero] at second
  exact ⟨first, second⟩

/- How many steps are taken at one place. A fork is met only once there, and from one fork to the
next a way goes onward in the code, so no way is given up for its length. -/
def patience (code : Array Instr) : Nat := (code.size + 1) * (code.size + 3)

/- The preferred way from an address at one place; behind a character that is to be taken there,
`onward` goes on. -/
def exploreAt (code : Array Instr) (pl : Place)
    (onward : CharSet → Nat → Met → Option Way × Met) : Nat → Nat → Met → Option Way × Met
  | 0, _, met => (none, met)
  | fuel + 1, address, met =>
    match code[address]? with
    | none => (some ⟨pl.offset, []⟩, met)
    | some (.take s) => onward s (address + 1) met
    | some (.test e) =>
      if pl.meets e then exploreAt code pl onward fuel (address + 1) met else (none, met)
    | some (.mark index closes) =>
      let (way, met) := exploreAt code pl onward fuel (address + 1) met
      (way.map (.push ⟨index, closes, pl.offset⟩), met)
    | some (.jump target) => exploreAt code pl onward fuel target met
    | some (.fork preferred other) =>
      if met.contains (visit code address pl.offset) then (none, met)
      else match exploreAt code pl onward fuel preferred
          (met.insert (visit code address pl.offset)) with
        | (some way, met) => (some way, met)
        | (none, met) => exploreAt code pl onward fuel other met

/- The preferred way from an address on through a text. -/
def explore (code : Array Instr) : Text → Nat → Option Char → Nat → Met → Option Way × Met
  | [], offset, before, address, met =>
    exploreAt code ⟨offset, before, []⟩ (fun _ _ met => (none, met)) (patience code) address met
  | c :: rest, offset, before, address, met =>
    exploreAt code ⟨offset, before, c :: rest⟩ (fun s address met =>
      if s.holds c then explore code rest (offset + c.utf8Size) (some c) address met
      else (none, met)) (patience code) address met

/- A match: where it starts, its text, and the marks on its way. -/
structure Found where
  start : Nat
  text : Text
  marks : List Mark
  deriving DecidableEq, Repr

namespace Found

def ofWay (offset : Nat) (t : Text) (w : Way) : Found :=
  ⟨offset, t.first (w.stop - offset), w.marks⟩

def stop (m : Found) : Nat := m.start + m.text.size

def span (m : Found) : Span := ⟨m.start, m.stop⟩

def lastMark? (m : Found) (index : Nat) (closes : Bool) : Option Nat :=
  (m.marks.reverse.find? (fun k => k.index == index && k.closes == closes)).map (·.offset)

/- Group 0 is the whole match; a group met more than once keeps its last span. -/
def group? (m : Found) (index : Nat) : Option Span :=
  if index = 0 then some m.span
  else do
    let start ← m.lastMark? index false
    let stop ← m.lastMark? index true
    some ⟨start, stop⟩

/- A group lies within its match. -/
def groupText? (m : Found) (index : Nat) : Option Text :=
  (m.group? index).map (fun s => m.text.slice ⟨s.start - m.start, s.stop - m.start⟩)

end Found

/- A pattern with its code. -/
structure Matcher where
  pattern : Pattern
  code : Array Instr
  deriving DecidableEq, Repr

def matcher (p : Pattern) : Matcher := ⟨p, (p.code 0).toArray⟩

namespace Matcher

/- One search: where it fails, the forks met on the way remain of no use further on. An empty
match right where the last one ended does not count. -/
def findFrom (m : Matcher) (last : Option Nat) (met : Met) (offset : Nat) (before : Option Char) :
    Text → List Found
  | [] =>
    if last.any (offset < ·) then []
    else match (explore m.code [] offset before 0 met).1 with
      | none => []
      | some way =>
        if last == some offset && way.stop == offset then []
        else [.ofWay offset [] way]
  | c :: rest =>
    if last.any (offset < ·) then findFrom m last met (offset + c.utf8Size) (some c) rest
    else match explore m.code (c :: rest) offset before 0 met with
      | (none, met) => findFrom m last met (offset + c.utf8Size) (some c) rest
      | (some way, _) =>
        if last == some offset && way.stop == offset then
          findFrom m last ∅ (offset + c.utf8Size) (some c) rest
        else
          .ofWay offset (c :: rest) way ::
            findFrom m (some way.stop) ∅ (offset + c.utf8Size) (some c) rest

def findAll (m : Matcher) (t : Text) : List Found := findFrom m none ∅ 0 none t

def occursIn (m : Matcher) (t : Text) : Bool := !(m.findAll t).isEmpty

end Matcher

end Intake.Pattern
