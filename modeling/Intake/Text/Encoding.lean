import Intake.Text.Basic

/-! UTF-8 read one byte at a time. A first byte says how many tails follow and which second
bytes keep the form shortest, outside the surrogates and within the last code point. -/
namespace Intake.Text

def encode (t : Text) : List UInt8 := t.flatMap String.utf8EncodeChar

/-- Where bytes stop being text: `index` bytes are well formed, and a character is broken
after `length` bytes, or cut off by the end of the bytes. -/
structure Flaw where
  index : Nat
  length : Option Nat
  deriving DecidableEq, Repr

/- A character of which `taken` bytes have been read with the bits `code`; `left` more are
owed, the next of them from `low` to `high`. -/
structure Unfinished where
  code : Nat
  taken : Nat
  left : Nat
  low : Nat
  high : Nat
  deriving DecidableEq, Repr

def opening (b : Nat) : Option Unfinished :=
  if 0xC2 ≤ b ∧ b ≤ 0xDF then some ⟨b - 0xC0, 1, 1, 0x80, 0xBF⟩
  else if b = 0xE0 then some ⟨0, 1, 2, 0xA0, 0xBF⟩
  else if b = 0xED then some ⟨0xD, 1, 2, 0x80, 0x9F⟩
  else if 0xE1 ≤ b ∧ b ≤ 0xEF then some ⟨b - 0xE0, 1, 2, 0x80, 0xBF⟩
  else if b = 0xF0 then some ⟨0, 1, 3, 0x90, 0xBF⟩
  else if 0xF1 ≤ b ∧ b ≤ 0xF3 then some ⟨b - 0xF0, 1, 3, 0x80, 0xBF⟩
  else if b = 0xF4 then some ⟨4, 1, 3, 0x80, 0x8F⟩
  else none

def decodeFrom (index : Nat) : Option Unfinished → List UInt8 → Except Flaw Text
  | none, [] => .ok []
  | some _, [] => .error ⟨index, none⟩
  | none, b :: rest =>
    if b.toNat < 0x80 then (decodeFrom (index + 1) none rest).map (Char.ofNat b.toNat :: ·)
    else match opening b.toNat with
      | none => .error ⟨index, some 1⟩
      | some p => decodeFrom index (some p) rest
  | some p, b :: rest =>
    if p.low ≤ b.toNat ∧ b.toNat ≤ p.high then
      let code := p.code * 0x40 + (b.toNat - 0x80)
      if p.left = 1 then
        (decodeFrom (index + p.taken + 1) none rest).map (Char.ofNat code :: ·)
      else decodeFrom index (some ⟨code, p.taken + 1, p.left - 1, 0x80, 0xBF⟩) rest
    else .error ⟨index, some p.taken⟩

def decode (bytes : List UInt8) : Except Flaw Text := decodeFrom 0 none bytes

end Intake.Text
