import Intake.Config.Basic

/-! The settings that are checked before anything is built, in the order of the check, with
the names they have in messages. -/
namespace Intake

inductive Threshold where
  | logTimeRatio
  | listRatio
  | tableRatio
  | identifierLineFraction
  | conflictEntropy
  | logRepeatability
  deriving DecidableEq, Repr

namespace Threshold

def all : List Threshold :=
  [logTimeRatio, listRatio, tableRatio, identifierLineFraction, conflictEntropy, logRepeatability]

theorem memberAll (t : Threshold) : t ∈ all := by cases t <;> decide

def name : Threshold → String
  | logTimeRatio => "detector.log_time_ratio"
  | listRatio => "detector.list_ratio"
  | tableRatio => "detector.table_ratio"
  | identifierLineFraction => "detector.identifier_line_fraction"
  | conflictEntropy => "detector.conflict_entropy"
  | logRepeatability => "policy.log_repeatability"

def value (c : Config) : Threshold → Float
  | logTimeRatio => c.detector.logTimeRatio
  | listRatio => c.detector.listRatio
  | tableRatio => c.detector.tableRatio
  | identifierLineFraction => c.detector.identifierLineFraction
  | conflictEntropy => c.detector.conflictEntropy
  | logRepeatability => c.selector.logRepeatability

/- Zero counts as non-negative with either sign. -/
def acceptable (x : Float) : Bool := x.isFinite && !decide (x < 0.0)

end Threshold

inductive SizeSetting where
  | repeatPrefixChars
  | logWindowLines
  | procedureMaxSize
  | defaultMaxSize
  | mixedMaxSize
  | hardLimitFactor
  | patternPrefixChars
  deriving DecidableEq, Repr

namespace SizeSetting

def all : List SizeSetting :=
  [repeatPrefixChars, logWindowLines, procedureMaxSize, defaultMaxSize, mixedMaxSize,
   hardLimitFactor, patternPrefixChars]

theorem memberAll (s : SizeSetting) : s ∈ all := by cases s <;> decide

def name : SizeSetting → String
  | repeatPrefixChars => "detector.repeat_prefix_chars"
  | logWindowLines => "segmenter.log_window_lines"
  | procedureMaxSize => "segmenter.procedure_max_size"
  | defaultMaxSize => "segmenter.default_max_size"
  | mixedMaxSize => "segmenter.mixed_max_size"
  | hardLimitFactor => "segmenter.hard_limit_factor"
  | patternPrefixChars => "compressor.pattern_prefix_chars"

def value (c : Config) : SizeSetting → UInt64
  | repeatPrefixChars => c.detector.repeatPrefixChars
  | logWindowLines => c.segmenter.logWindowLines
  | procedureMaxSize => c.segmenter.procedureMaxSize
  | defaultMaxSize => c.segmenter.defaultMaxSize
  | mixedMaxSize => c.segmenter.mixedMaxSize
  | hardLimitFactor => c.segmenter.hardLimitFactor
  | patternPrefixChars => c.compressor.patternPrefixChars

end SizeSetting

end Intake
