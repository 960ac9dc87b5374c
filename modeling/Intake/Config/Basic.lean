import Intake.Table

/-! Configuration of the stages. Sizes and group indices are machine words, as they are
written; the defaults are the values that the classification is tuned to. -/
namespace Intake

/- Feature extraction: what a capture group of the pattern holds goes under its key. -/
structure ExtractionRule where
  name : String
  pattern : String
  mapping : Table UInt64 String
  deriving DecidableEq, Repr

namespace Config

def defaultStepPattern : String := "\\n\\s*(Step|Krok|Kolejno)\\s*\\d+[:.]"

structure Detector where
  logMinLines : UInt64 := 5
  logTimeRatio : Float := 0.4
  listRatio : Float := 0.3
  tableRatio : Float := 0.4
  identifierLineFraction : Float := 0.5
  conflictEntropy : Float := 8.0
  repeatPrefixChars : UInt64 := 10
  deriving Repr

structure Selector where
  logRepeatability : Float := 0.4
  deriving Repr

structure Segmenter where
  logWindowLines : UInt64 := 50
  procedureMaxSize : UInt64 := 1500
  defaultMaxSize : UInt64 := 1000
  mixedMaxSize : UInt64 := 800
  hardLimitFactor : UInt64 := 3
  stepPattern : String := defaultStepPattern
  extractionRules : List ExtractionRule := []
  deriving Repr

structure Compressor where
  patternPrefixChars : UInt64 := 40
  deriving DecidableEq, Repr

end Config

structure Config where
  detector : Config.Detector := {}
  selector : Config.Selector := {}
  segmenter : Config.Segmenter := {}
  compressor : Config.Compressor := {}
  deriving Repr

end Intake
