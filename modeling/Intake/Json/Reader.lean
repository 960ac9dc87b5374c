import Intake.Json.Numeral

/-! Reading a JSON text as a document. The grammar is strict: no comments, no trailing commas,
no byte order mark, no leading zeros, and nothing but blanks after the value. -/
namespace Intake.Json.Reader

def isGap (c : Char) : Bool := c == ' ' || c == '\n' || c == '\t' || c == '\r'

def skipGap (t : List Char) : List Char := t.dropWhile isGap

def word? : List Char → List Char → Option (List Char)
  | [], t => some t
  | w :: ws, c :: t => if w = c then word? ws t else none
  | _ :: _, [] => none

def hexDigit? (c : Char) : Option Nat :=
  if c.isDigit then some (c.toNat - 48)
  else if 'a' ≤ c ∧ c ≤ 'f' then some (c.toNat - 87)
  else if 'A' ≤ c ∧ c ≤ 'F' then some (c.toNat - 55)
  else none

def hexUnit? (a b c d : Char) : Option Nat := do
  let a ← hexDigit? a
  let b ← hexDigit? b
  let c ← hexDigit? c
  let d ← hexDigit? d
  some (((a * 16 + b) * 16 + c) * 16 + d)

def shortEscape? (c : Char) : Option Nat :=
  if c = '"' ∨ c = '\\' ∨ c = '/' then some c.toNat
  else if c = 'b' then some 8
  else if c = 'f' then some 12
  else if c = 'n' then some 10
  else if c = 'r' then some 13
  else if c = 't' then some 9
  else none

/- The inside of a quoted string as code points and escaped surrogates. -/
structure Quoted where
  units : List Nat
  plain : Bool
  rest : List Char

def Quoted.push (unit : Nat) (escaped : Bool) (q : Quoted) : Quoted :=
  ⟨unit :: q.units, q.plain && !escaped, q.rest⟩

def quoted : List Char → Option Quoted
  | [] => none
  | '"' :: rest => some ⟨[], true, rest⟩
  | '\\' :: 'u' :: a :: b :: c :: d :: rest => do
    let unit ← hexUnit? a b c d
    (quoted rest).map (Quoted.push unit true)
  | '\\' :: e :: rest => do
    let unit ← shortEscape? e
    (quoted rest).map (Quoted.push unit true)
  | c :: rest => if c.toNat < 0x20 ∨ c = '\\' then none else (quoted rest).map (Quoted.push c.toNat false)

def isHigh (unit : Nat) : Bool := decide (0xD800 ≤ unit ∧ unit < 0xDC00)
def isLow (unit : Nat) : Bool := decide (0xDC00 ≤ unit ∧ unit < 0xE000)

/- A high and a low surrogate are one character; either alone is none. -/
def joinUnits : List Nat → Option (List Char)
  | [] => some []
  | [unit] => if isHigh unit || isLow unit then none else some [Char.ofNat unit]
  | high :: low :: rest =>
    if isHigh high then
      if isLow low then
        (joinUnits rest).map
          (Char.ofNat (0x10000 + (high - 0xD800) * 0x400 + (low - 0xDC00)) :: ·)
      else none
    else if isLow high then none
    else (joinUnits (low :: rest)).map (Char.ofNat high :: ·)

def Quoted.text? (q : Quoted) : Option String := (joinUnits q.units).map String.ofList

def quotedDocument (q : Quoted) : Document :=
  match q.text? with
  | some s => .string s
  | none => .unreadable

/- One name that cannot be read spoils its object. -/
def object (members : List (Option Label × Document)) : Document :=
  match members.mapM (fun m => m.1.map (·, m.2)) with
  | some members => .object members
  | none => .unreadable

mutual
def value : Nat → List Char → Option (Document × List Char)
  | 0, _ => none
  | fuel + 1, t => match skipGap t with
    | [] => none
    | '"' :: rest => (quoted rest).map (fun q => (quotedDocument q, q.rest))
    | '[' :: rest => match skipGap rest with
      | ']' :: rest => some (.array [], rest)
      | rest => (items fuel rest).map (fun (ds, rest) => (.array ds, rest))
    | '\x7b' :: rest => match skipGap rest with
      | '\x7d' :: rest => some (.object [], rest)
      | rest => (members fuel rest).map (fun (ms, rest) => (object ms, rest))
    | 't' :: rest => (word? ['r', 'u', 'e'] rest).map (.bool true, ·)
    | 'f' :: rest => (word? ['a', 'l', 's', 'e'] rest).map (.bool false, ·)
    | 'n' :: rest => (word? ['u', 'l', 'l'] rest).map (.null, ·)
    | t => (Numeral.read t).map (fun (n, rest) => (n.document, rest))

def items : Nat → List Char → Option (List Document × List Char)
  | 0, _ => none
  | fuel + 1, t => do
    let (d, t) ← value fuel t
    match skipGap t with
    | ',' :: rest =>
      let (ds, rest) ← items fuel rest
      some (d :: ds, rest)
    | ']' :: rest => some ([d], rest)
    | _ => none

def members : Nat → List Char → Option (List (Option Label × Document) × List Char)
  | 0, _ => none
  | fuel + 1, t => match skipGap t with
    | '"' :: rest => do
      let q ← quoted rest
      let label : Option Label := q.text?.map (fun name => ⟨name, q.plain⟩)
      match skipGap q.rest with
      | ':' :: rest =>
        let (d, rest) ← value fuel rest
        match skipGap rest with
        | ',' :: rest =>
          let (ms, rest) ← members fuel rest
          some ((label, d) :: ms, rest)
        | '\x7d' :: rest => some ([(label, d)], rest)
        | _ => none
      | _ => none
    | _ => none
end

end Intake.Json.Reader

namespace Intake.Json

/- Every step down or along consumes a character, so twice the length is fuel enough. -/
def Document.read (t : List Char) : Option Document :=
  match Reader.value (2 * t.length + 2) t with
  | some (d, rest) => if rest.all Reader.isGap then some d else none
  | none => none

end Intake.Json
