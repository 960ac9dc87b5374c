import Intake.Pattern.Class
import Intake.Pattern.Weight

/-! The written form of patterns. Repetition signs bind to the item before them, items are
put in sequence, and bars separate alternatives of which the earlier is preferred. Flags hold
from where they are set to the end of the enclosing group, later alternatives included. -/
namespace Intake.Pattern
open Unicode (isBlank isLetter isNumber)

structure Flags where
  ignoreCase : Bool := false
  multiLine : Bool := false
  dotNewline : Bool := false
  swapGreed : Bool := false
  deriving DecidableEq, Repr

/- How far a pattern has been read: the text left, the flags in force, the groups opened,
and the names given to groups. -/
structure Progress where
  rest : List Char
  flags : Flags
  groups : Nat
  names : List (List Char)

abbrev Reads := StateT Progress Option

namespace Reads

def refuse {α : Type} : Reads α := fun _ => none

def rest : Reads (List Char) := do return (← get).rest

def advanceTo (t : List Char) : Reads Unit := modify (fun r => { r with rest := t })

def expect (c : Char) : Reads Unit := do
  match ← rest with
  | d :: t => if c = d then advanceTo t else refuse
  | [] => refuse

end Reads

open Reads

/- A change of flags: whether it ends a group of its own or opens one. -/
structure FlagChange where
  flags : Flags
  opens : Bool
  rest : List Char

def setFlag (value : Bool) (flags : Flags) : Char → Option Flags
  | 'i' => some { flags with ignoreCase := value }
  | 'm' => some { flags with multiLine := value }
  | 's' => some { flags with dotNewline := value }
  | 'U' => some { flags with swapGreed := value }
  | 'u' => if value then some flags else none
  | _ => none

/- Flags after a hyphen are cleared; a hyphen needs some, and no flag may come twice. -/
def readFlags (seen : List Char) (clears dangling : Bool) (flags : Flags) :
    List Char → Option FlagChange
  | [] => none
  | ')' :: rest => if dangling || seen.isEmpty then none else some ⟨flags, false, rest⟩
  | ':' :: rest => if dangling then none else some ⟨flags, true, rest⟩
  | '-' :: rest => if clears then none else readFlags seen true true flags rest
  | c :: rest => do
    if seen.contains c then none
    readFlags (c :: seen) clears false (← setFlag (!clears) flags c) rest

def isNameChar (first : Bool) (c : Char) : Bool :=
  c == '_' || isLetter c ||
    (!first && (isNumber c || c == '.' || c == '[' || c == ']'))

def readName (t : List Char) : Option (List Char × List Char) :=
  let (name, after) := t.span (· != '>')
  match name, after with
  | c :: others, _ :: rest =>
    if isNameChar true c && others.all (isNameChar false) then some (name, rest) else none
  | _, _ => none

def countLimit : Nat := UInt32.size

def readCount (t : List Char) : Option (Nat × List Char) :=
  let (ds, rest) := (t.dropWhile isBlank).span Char.isDigit
  let n := ds.foldl (fun n d => n * 10 + (d.toNat - 48)) 0
  if ds.isEmpty ∨ countLimit ≤ n then none else some (n, rest.dropWhile isBlank)

/- A counted repetition after its opening brace: the least count, and the greatest if there
is one. -/
def readCounts (t : List Char) : Option (Nat × Option Nat × List Char) := do
  let (low, t) ← readCount t
  match t with
  | '\x7d' :: rest => some (low, some low, rest)
  | ',' :: '\x7d' :: rest => some (low, none, rest)
  | ',' :: t =>
    let (high, t) ← readCount t
    match t with
    | '\x7d' :: rest => if low ≤ high then some (low, some high, rest) else none
    | _ => none
  | _ => none

def lazySign : List Char → Bool × List Char
  | '?' :: t => (true, t)
  | t => (false, t)

/- What was read, with the depth to which its notation nests. -/
structure Piece where
  pattern : Pattern
  depth : Nat

namespace Piece

def leaf (p : Pattern) : Piece := ⟨p, 0⟩

def deepest (ps : List Piece) : Nat := (ps.map depth).foldl max 0

def inSequence : List Piece → Piece
  | [p] => p
  | ps => ⟨Pattern.inSequence (ps.map pattern), if ps.isEmpty then 0 else deepest ps + 1⟩

def oneOf : List Piece → Piece
  | [p] => p
  | ps => ⟨Pattern.oneOf (ps.map pattern), deepest ps + 1⟩

def repetition (low : Nat) (high : Option Nat) (greedy : Bool) (p : Piece) : Piece :=
  ⟨p.pattern.repetition low high greedy, p.depth + 1⟩

end Piece

/- Reads all repetition signs after an item; several apply one after the other. -/
def readSigns : Nat → Piece → Reads Piece
  | 0, _ => refuse
  | fuel + 1, p => do
    let sign (low : Nat) (high : Option Nat) (t : List Char) : Reads Piece := do
      let (isLazy, t) := lazySign t
      advanceTo t
      readSigns fuel (p.repetition low high (isLazy == (← get).flags.swapGreed))
    match ← rest with
    | '*' :: t => sign 0 none t
    | '+' :: t => sign 1 none t
    | '?' :: t => sign 0 (some 1) t
    | '\x7b' :: t => match readCounts t with
      | none => refuse
      | some (low, high, t) => sign low high t
    | _ => return p

def isRepetition (c : Char) : Bool := c == '*' || c == '+' || c == '?' || c == '\x7b'

def literal (c : Char) : Reads Piece := do
  return .leaf (one (if (← get).flags.ignoreCase then .anyCase c else .single c))

def openGroup (name : Option (List Char)) : Reads Nat := do
  let r ← get
  match name with
  | none => set { r with groups := r.groups + 1 }
  | some n =>
    if r.names.contains n then refuse
    else set { r with groups := r.groups + 1, names := n :: r.names }
  return r.groups + 1

mutual
def readChoice : Nat → Reads (List Piece)
  | 0 => refuse
  | fuel + 1 => do
    let p := Piece.inSequence (← readSequence fuel)
    match ← rest with
    | '|' :: t =>
      advanceTo t
      return p :: (← readChoice fuel)
    | _ => return [p]

/- Flags that are set count as items, but none can be repeated. -/
def readSequence : Nat → Reads (List Piece)
  | 0 => refuse
  | fuel + 1 => do
    match ← rest with
    | [] | '|' :: _ | ')' :: _ => return []
    | _ => match ← readUnit fuel with
      | some p =>
        let p ← readSigns fuel p
        return p :: (← readSequence fuel)
      | none =>
        if (← rest).head?.any isRepetition then refuse
        else return .leaf empty :: (← readSequence fuel)

/- One item, or nothing where only flags are set. -/
def readUnit : Nat → Reads (Option Piece)
  | 0 => refuse
  | fuel + 1 => do
    let flags := (← get).flags
    match ← rest with
    | [] => refuse
    | '(' :: t => readParenthesis fuel flags t
    | '[' :: t => match readClass flags.ignoreCase (2 * t.length + 2) t with
      | none => refuse
      | some (o, t) =>
        advanceTo t
        return some ⟨one o.set, o.depth⟩
    | '\\' :: t => match readEscape flags.ignoreCase t with
      | none => refuse
      | some (e, t) =>
        advanceTo t
        match e with
        | .char c => return some (← literal c)
        | .set s => return some (.leaf (one s))
        | .edge e => return some (.leaf (edge e))
    | '.' :: t =>
      advanceTo t
      let newline : CharSet := if flags.dotNewline then .none else .single '\n'
      return some (.leaf (one newline.complement))
    | '^' :: t =>
      advanceTo t
      return some (.leaf (edge (if flags.multiLine then .lineStart else .textStart)))
    | '$' :: t =>
      advanceTo t
      return some (.leaf (edge (if flags.multiLine then .lineEnd else .textEnd)))
    | c :: t =>
      if isRepetition c then refuse
      else
        advanceTo t
        return some (← literal c)

def readParenthesis : Nat → Flags → List Char → Reads (Option Piece)
  | 0, _, _ => refuse
  | fuel + 1, flags, t => do
    let inside (t : List Char) (make : Pattern → Pattern) : Reads (Option Piece) := do
      advanceTo t
      let p := Piece.oneOf (← readChoice fuel)
      expect ')'
      modify (fun r => { r with flags := flags })
      return some ⟨make p.pattern, p.depth + 1⟩
    let capture (name : Option (List Char)) (t : List Char) : Reads (Option Piece) := do
      let index ← openGroup name
      inside t (group index)
    match t with
    | '?' :: 'P' :: '<' :: t => match readName t with
      | some (name, t) => capture (some name) t
      | none => refuse
    | '?' :: '<' :: t => match readName t with
      | some (name, t) => capture (some name) t
      | none => refuse
    | '?' :: t => match readFlags [] false false flags t with
      | none => refuse
      | some change =>
        modify (fun r => { r with flags := change.flags })
        if change.opens then inside change.rest id
        else
          advanceTo change.rest
          return none
    | t => capture none t
end

/- Notation may nest so deep and no deeper. -/
def depthLimit : Nat := 250

/- Each level down or step along consumes a character within four calls. -/
def read (t : List Char) : Option Pattern :=
  match (readChoice (4 * t.length + 4)).run ⟨t, {}, 0, []⟩ with
  | some (ps, r) =>
    let p := Piece.oneOf ps
    if r.rest.isEmpty ∧ p.depth ≤ depthLimit ∧ p.pattern.isLight then some p.pattern
    else none
  | none => none

end Intake.Pattern
