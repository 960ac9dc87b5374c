import Intake.Ratio
import Intake.Decimal
import Intake.Json.Document

/-! Number literals. Digits are gathered into a 64-bit significand until one would no longer
fit; whole digits from there on only raise the exponent, further fraction digits are dropped.
A literal without point, exponent or overflow is an integer. Any other is the significand as a
float, multiplied or divided once by the power of ten that the exponent asks for. -/
namespace Intake.Json

structure Numeral where
  negative : Bool
  whole : List Nat
  fraction : List Nat
  exponent : Option Int
  deriving DecidableEq, Repr

namespace Numeral

def wordLimit : Nat := UInt64.size

/- The significand so far, and the digits that no longer fit. -/
def gather (sum : Nat) : List Nat → Nat × List Nat
  | [] => (sum, [])
  | d :: rest => if sum * 10 + d < wordLimit then gather (sum * 10 + d) rest else (sum, d :: rest)

def powerOfTen (n : Nat) : Float := Decimal.nearest (Nat.pow 10 n) 1

/- Powers beyond 308 are no floats: upwards nothing but zero stays in range, downwards
one division by the largest power goes before. -/
def scale (significand : Nat) (exponent : Int) : Option Float :=
  let x := Ratio.toFloat significand
  if significand = 0 then some x
  else if 308 < exponent then none
  else if 0 ≤ exponent then
    let y := x * powerOfTen exponent.toNat
    if y.isFinite then some y else none
  else if -308 ≤ exponent then some (x / powerOfTen (-exponent).toNat)
  else if -616 ≤ exponent then some (x / powerOfTen 308 / powerOfTen (-exponent - 308).toNat)
  else some 0.0

def signed (n : Numeral) (x : Float) : Document := .float (if n.negative then -x else x)

def document (n : Numeral) : Document :=
  let (whole, excess) := gather 0 n.whole
  if n.fraction.isEmpty ∧ n.exponent.isNone ∧ excess.isEmpty then
    if !n.negative then .int whole
    else if 0 < whole ∧ whole ≤ wordLimit / 2 then .int (-(whole : Int))
    else n.signed (Ratio.toFloat whole)
  else
    let (significand, dropped) := gather whole n.fraction
    let places : Int := n.fraction.length - dropped.length
    match scale significand (n.exponent.getD 0 + excess.length - places) with
    | some x => n.signed x
    | none => .unreadable

end Numeral

def digit? (c : Char) : Option Nat := if c.isDigit then some (c.toNat - '0'.toNat) else none

def takeDigits : List Char → List Nat × List Char
  | [] => ([], [])
  | c :: rest => match digit? c with
    | none => ([], c :: rest)
    | some d => let (ds, after) := takeDigits rest; (d :: ds, after)

def decimalValue (ds : List Nat) : Nat := ds.foldl (fun n d => n * 10 + d) 0

namespace Numeral

def readWhole (t : List Char) : Option (List Nat × List Char) :=
  match takeDigits t with
  | ([], _) => none
  | (0 :: _ :: _, _) => none
  | found => some found

def readFraction : List Char → Option (List Nat × List Char)
  | '.' :: rest => match takeDigits rest with
    | ([], _) => none
    | found => some found
  | t => some ([], t)

def readPower (negative : Bool) (t : List Char) : Option (Option Int × List Char) :=
  match takeDigits t with
  | ([], _) => none
  | (ds, rest) =>
    let n : Int := decimalValue ds
    some (some (if negative then -n else n), rest)

def readExponent : List Char → Option (Option Int × List Char)
  | c :: rest =>
    if c = 'e' ∨ c = 'E' then match rest with
      | '+' :: rest => readPower false rest
      | '-' :: rest => readPower true rest
      | rest => readPower false rest
    else some (none, c :: rest)
  | [] => some (none, [])

def readSigned (negative : Bool) (t : List Char) : Option (Numeral × List Char) := do
  let (whole, t) ← readWhole t
  let (fraction, t) ← readFraction t
  let (exponent, t) ← readExponent t
  some (⟨negative, whole, fraction, exponent⟩, t)

def read : List Char → Option (Numeral × List Char)
  | '-' :: rest => readSigned true rest
  | t => readSigned false t

end Numeral

end Intake.Json
