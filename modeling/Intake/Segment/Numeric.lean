import Intake.Decimal
import Intake.Json.Value
import Intake.Text.Basic

/-! Captured text as a value: a 64-bit integer, a finite float if it has a decimal point, or
else the text itself. -/
namespace Intake.Numeric
open Json (Value)

def sign : Text → Bool × Text
  | '-' :: t => (true, t)
  | '+' :: t => (false, t)
  | t => (false, t)

def digitsValue (ds : Text) : Nat := ds.foldl (fun n d => n * 10 + (d.toNat - '0'.toNat)) 0

def natural? (t : Text) : Option Nat :=
  if t.isEmpty ∨ !t.all Char.isDigit then none else some (digitsValue t)

def integer? (t : Text) : Option Int := do
  let (negative, t) := sign t
  let n ← natural? t
  let value : Int := if negative then -(n : Int) else n
  if Int64.minValue.toInt ≤ value ∧ value ≤ Int64.maxValue.toInt then some value else none

def exponent? : Text → Option Int
  | [] => some 0
  | e :: t =>
    if e = 'e' ∨ e = 'E' then do
      let (negative, t) := sign t
      let n ← natural? t
      some (if negative then -(n : Int) else n)
    else none

/- Digits on at least one side of the point, then perhaps an exponent. -/
def float? (t : Text) : Option Float := do
  let (negative, t) := sign t
  let (whole, t) := t.span Char.isDigit
  let (fraction, t) := match t with
    | '.' :: t => t.span Char.isDigit
    | t => ([], t)
  if whole.isEmpty ∧ fraction.isEmpty then none
  let exponent ← exponent? t
  let x := Decimal.scaled (digitsValue (whole ++ fraction)) (exponent - fraction.length)
  some (if negative then -x else x)

def value (t : Text) : Value :=
  if t.contains '.' then
    match float? t with
    | some x => if x.isFinite then .float x else .string (String.ofList t)
    | none => .string (String.ofList t)
  else match integer? t with
    | some n => .int n
    | none => .string (String.ofList t)

theorem canonicalValue (t : Text) : (value t).Canonical := by
  unfold value
  split
  · split
    · split
      · exact .float (by assumption)
      · exact .string
    · exact .string
  · split
    · exact .int
    · exact .string

end Intake.Numeric
