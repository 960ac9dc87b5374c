import Intake.Pattern.CharSet

/-! Patterns over text: what may stand at a place, and in which order the possibilities are
tried. Patterns are put together in a simplified form: sequences and choices are flat, what can
only be empty is not repeated, a choice between characters is a set, and a beginning that all
alternatives share stands in front of them. -/
namespace Intake

namespace Pattern

/- Conditions on a place between two characters. -/
inductive Edge where
  | textStart
  | textEnd
  | lineStart
  | lineEnd
  | word
  | notWord
  deriving DecidableEq, Repr

end Pattern

/- Repetitions give the least count and the greatest, if there is one. -/
inductive Pattern where
  | empty
  | one (set : Pattern.CharSet)
  | edge (e : Pattern.Edge)
  | seq (p q : Pattern)
  | alt (p q : Pattern)
  | times (low : Nat) (high : Option Nat) (greedy : Bool) (p : Pattern)
  | group (index : Nat) (p : Pattern)
  deriving DecidableEq, Repr, Inhabited

namespace Pattern

def char (c : Char) : Pattern := one (.single c)

def anyOf (cs : List Char) : Pattern := one (.ofList cs)

def opt (greedy : Bool) (p : Pattern) : Pattern := times 0 (some 1) greedy p

def star (greedy : Bool) (p : Pattern) : Pattern := times 0 none greedy p

def plus (greedy : Bool) (p : Pattern) : Pattern := times 1 none greedy p

def exactly (n : Nat) (p : Pattern) : Pattern := times n (some n) true p

def chain : List Pattern → Pattern
  | [] => empty
  | [p] => p
  | p :: rest => seq p (chain rest)

def choice : List Pattern → Pattern
  | [] => one .none
  | [p] => p
  | p :: rest => alt p (choice rest)

/- Whether every match is empty. -/
def onlyEmpty : Pattern → Bool
  | empty | edge _ => true
  | one _ => false
  | seq p q | alt p q => onlyEmpty p && onlyEmpty q
  | times _ high _ p => high.isSome && onlyEmpty p
  | group _ p => onlyEmpty p

/- Whether no match is empty. -/
def advances : Pattern → Bool
  | empty | edge _ => false
  | one _ => true
  | seq p q => advances p || advances q
  | alt p q => advances p && advances q
  | times low _ _ p => low != 0 && advances p
  | group _ p => advances p

def size : Pattern → Nat
  | empty | one _ | edge _ => 1
  | seq p q | alt p q => size p + size q + 1
  | times _ _ _ p | group _ p => size p + 1

/- The items of a sequence, none of them empty. -/
def items : Pattern → List Pattern
  | empty => []
  | seq p q => items p ++ items q
  | p => [p]

def branches : Pattern → List Pattern
  | alt p q => branches p ++ branches q
  | p => [p]

def inSequence (ps : List Pattern) : Pattern := chain (ps.flatMap items)

def isLiteral : Pattern → Bool
  | one s => s.only?.isSome
  | _ => false

def set? : Pattern → Option CharSet
  | one s => some s
  | _ => none

/- The items of a sequence, where characters in a row are one. -/
def units (p : Pattern) : List (List Pattern) :=
  p.items.splitBy (fun a b => a.isLiteral && b.isLiteral)

def commonStart {α : Type} [DecidableEq α] : List α → List α → List α
  | x :: xs, y :: ys => if x = y then x :: commonStart xs ys else []
  | _, _ => []

def sharedStart {α : Type} [DecidableEq α] : List (List α) → List α
  | [] => []
  | x :: rest => rest.foldl commonStart x

/- Single characters only, or other sets only, are one set. -/
def oneSet? (ps : List Pattern) : Option CharSet :=
  if ps.all isLiteral || !ps.any isLiteral then (ps.mapM set?).map .unionAll else none

/- Every round takes a shared start off all alternatives, so their size bounds the rounds. -/
def simplify : Nat → List Pattern → Pattern
  | 0, ps => choice ps
  | fuel + 1, ps =>
    let ps := ps.flatMap branches
    match ps, oneSet? ps with
    | [p], _ => p
    | _, some s => one s
    | _, none =>
      let cut := ps.map units
      let shared := sharedStart cut
      if shared.isEmpty || cut.any (fun us => us.length < 2) then choice ps
      else
        let tails := cut.map (fun us => chain (us.drop shared.length).flatten)
        inSequence (shared.flatten ++ [simplify fuel tails])

def oneOf (ps : List Pattern) : Pattern := simplify (ps.foldr (fun p n => size p + n) 1) ps

/- What can only be empty is tried at most once. -/
def repetition (low : Nat) (high : Option Nat) (greedy : Bool) (p : Pattern) : Pattern :=
  let least := if p.onlyEmpty then min low 1 else low
  let most := if p.onlyEmpty then some (min (high.getD 1) 1) else high
  if most = some 0 then empty
  else if least = 1 ∧ most = some 1 then p
  else times least most greedy p

end Pattern

end Intake
