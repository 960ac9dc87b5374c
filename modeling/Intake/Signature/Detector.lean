import Intake.Audit
import Intake.Config.Basic
import Intake.Signature.Basic
import Intake.Signature.Markers
import Intake.Signature.Frequency
import Intake.Unicode.Capital
import Intake.Unicode.Letter
import Intake.Unicode.Number

/-! Detection of a text's signature. The mode is the first in a fixed order whose markers
are frequent enough among the lines that are not blank. -/
namespace Intake.Detector
open Unicode (isBlank isLetter isNumber isUppercase)

/- The order of the tests matters: earlier modes dominate later ones. -/
def classify (c : Config.Detector) (lineCount : Nat) (m : MarkerCounts) : Mode :=
  if lineCount = 0 then .empty
  else if c.logMinLines.toNat < lineCount ∧ c.logTimeRatio < Ratio.of m.time lineCount then .log
  else if c.listRatio < Ratio.of m.list lineCount then .procedure
  else if c.tableRatio < Ratio.of m.table lineCount then .table
  else if Ratio.toFloat lineCount * c.identifierLineFraction < Ratio.toFloat m.identifiers then
    .technical
  else .prose

inductive CharKind where
  | digit
  | upper
  | special
  | plain
  deriving DecidableEq, Repr

/- Only the ten ASCII digits count as digits. -/
def kind (c : Char) : CharKind :=
  if c.isDigit then .digit
  else if isUppercase c then .upper
  else if isLetter c || isNumber c || isBlank c then .plain
  else .special

def kindRatio (k : CharKind) (t : Text) : Float :=
  if t.isEmpty then 0.0 else Ratio.of (t.countP (fun c => kind c == k)) t.length

def shape (c : Config.Detector) (t : Text) (lines : List Text) : Shape :=
  let markers := MarkerCounts.scan t lines
  { mode := classify c lines.length markers
    lineCount := lines.length
    averageLineLength := Ratio.of lines.flatten.length lines.length
    digitRatio := kindRatio .digit t
    specialRatio := kindRatio .special t
    upperRatio := kindRatio .upper t
    timeMarkers := markers.time
    listMarkers := markers.list
    tableMarkers := markers.table
    identifiers := markers.identifiers }

def distribution (c : Config.Detector) (t : Text) (lines : List Text) : Distribution :=
  let words := t.words
  { tokenEntropy := Frequency.entropy words
    repeatability := Frequency.repeatability c.repeatPrefixChars.toNat lines
    vocabulary := Frequency.vocabulary words }

def stability (c : Config.Detector) (mode : Mode) (d : Distribution) : Stability :=
  { conflict := mode == .log && decide (c.conflictEntropy < d.tokenEntropy)
    orderSensitive := mode.orderSensitive }

def contentLines (t : Text) : List Text := t.lines.filter (fun l => decide (¬ l.Blank))

def signature (c : Config.Detector) (t : Text) : Signature :=
  let lines := contentLines t
  if lines.isEmpty then .empty
  else
    let s := shape c t lines
    let d := distribution c t lines
    ⟨s, d, stability c s.mode d⟩

def audit (s : Signature) (shortCircuit : Bool) : Audit :=
  ⟨"detect", "signature_computed",
    ((Metadata.empty.setString "mode" s.mode.name).set "short_circuit" (.bool shortCircuit)).set
      "signature" s.toValue s.canonicalToValue⟩

def detect (c : Config.Detector) (t : Text) : Signature × Audit :=
  let s := signature c t
  (s, audit s (contentLines t).isEmpty)

end Intake.Detector
