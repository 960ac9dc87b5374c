import Intake.Config.Setting
import Intake.Text.Encoding

/-! What can go wrong before a text is ingested, and what is said about it. -/
namespace Intake

inductive Fault where
  | notText (flaw : Text.Flaw)
  | badThreshold (t : Threshold)
  | zeroSize (s : SizeSetting)
  | emptyStepPattern
  | badPattern (name : String)
  | unreadable
  deriving DecidableEq, Repr

def Text.Flaw.message (f : Text.Flaw) : String :=
  match f.length with
  | some n => s!"invalid utf-8 sequence of {n} bytes from index {f.index}"
  | none => s!"incomplete utf-8 byte sequence from index {f.index}"

namespace Fault

def message : Fault → String
  | notText flaw => "Invalid input: input is not valid UTF-8: " ++ flaw.message
  | badThreshold t => "Configuration error: " ++ t.name ++ " must be a finite, non-negative number"
  | zeroSize s => "Configuration error: " ++ s.name ++ " must be greater than zero"
  | emptyStepPattern => "Configuration error: segmenter.step_pattern must not be empty"
  | badPattern name => "Invalid pattern '" ++ name ++ "'"
  | unreadable => "Serialization error"

end Fault

end Intake
