import Intake.Audit
import Intake.Text.Basic

/-! Normalization: NUL characters are dropped, and every line ending becomes a newline. The
passes run in this order, so a pair that only a NUL separated counts as one ending. -/
namespace Intake.Normalization
open Json (Value)

def dropNuls (t : Text) : Text := t.filter (· != '\x00')

def foldPairs : Text → Text
  | '\x0d' :: '\n' :: rest => '\n' :: foldPairs rest
  | c :: rest => c :: foldPairs rest
  | [] => []

def foldReturns (t : Text) : Text := t.map (fun c => if c = '\x0d' then '\n' else c)

def normalize (t : Text) : Text := foldReturns (foldPairs (dropNuls t))

def nuls (t : Text) : Nat := t.count '\x00'

def given : Option Metadata → Value
  | some m => m.toValue
  | none => .null

theorem canonicalGiven (m : Option Metadata) : (given m).Canonical := by
  cases m with
  | none => exact .null
  | some m => exact m.canonicalToValue

def audit (t : Text) (metadata : Option Metadata) : Audit :=
  ⟨"normalize", "sanitize",
    (((Metadata.empty.setNat "original_length" t.size).setNat
      "normalized_length" (Text.size (normalize t))).setNat
      "null_bytes_removed" (nuls t)).set "metadata" (given metadata) (canonicalGiven metadata)⟩

def run (t : Text) (metadata : Option Metadata) : Text × Audit := (normalize t, audit t metadata)

end Intake.Normalization
