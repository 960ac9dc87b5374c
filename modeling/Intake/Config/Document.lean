import Intake.Config.Check
import Intake.Metadata

/-! Configurations as JSON. Every section and every field may be left out, and then has its
default; unknown fields are passed over. -/
namespace Intake
open Json (Value Document Label)
open Json.Document (record? orElse word? float? string? list?)

namespace ExtractionRule

/- Group indices are written in plain decimal, without sign or leading zeros. -/
def groupIndex? (label : Label) : Option UInt64 :=
  match Json.Numeral.readWhole label.name.toList with
  | some (digits, []) =>
    let n := Json.decimalValue digits
    if label.plain ∧ n < Json.Numeral.wordLimit then some (UInt64.ofNat n) else none
  | _ => none

def capture? (member : Label × Document) : Option (UInt64 × String) := do
  let index ← groupIndex? member.1
  let key ← string? member.2
  some (index, key)

def mapping? : Document → Option (Table UInt64 String)
  | .object members => (members.mapM capture?).map Table.ofList
  | _ => none

def mappingValue (mapping : Table UInt64 String) : Value :=
  .record (mapping.entries.map (fun p => (p.1.toNat.repr, .string p.2)))

def toValue (r : ExtractionRule) : Value := .record
  [("name", .string r.name), ("pattern", .string r.pattern), ("mapping", mappingValue r.mapping)]

def ofDocument? (d : Document) : Option ExtractionRule := do
  match ← record? ["name", "pattern", "mapping"] d with
  | [some name, some pattern, some mapping] =>
    some ⟨← string? name, ← string? pattern, ← mapping? mapping⟩
  | _ => none

end ExtractionRule

namespace Config

def Detector.toValue (c : Detector) : Value := .record
  [("log_min_lines", .ofNat c.logMinLines.toNat),
   ("log_time_ratio", .ofFloat c.logTimeRatio),
   ("list_ratio", .ofFloat c.listRatio),
   ("table_ratio", .ofFloat c.tableRatio),
   ("identifier_line_fraction", .ofFloat c.identifierLineFraction),
   ("conflict_entropy", .ofFloat c.conflictEntropy),
   ("repeat_prefix_chars", .ofNat c.repeatPrefixChars.toNat)]

def Detector.fieldNames : List String :=
  ["log_min_lines", "log_time_ratio", "list_ratio", "table_ratio", "identifier_line_fraction",
   "conflict_entropy", "repeat_prefix_chars"]

def Detector.ofDocument? (d : Document) : Option Detector := do
  let standard : Detector := {}
  match ← record? fieldNames d with
  | [lines, time, list, table, identifiers, entropy, chars] =>
    some ⟨← orElse standard.logMinLines word? lines,
      ← orElse standard.logTimeRatio float? time,
      ← orElse standard.listRatio float? list,
      ← orElse standard.tableRatio float? table,
      ← orElse standard.identifierLineFraction float? identifiers,
      ← orElse standard.conflictEntropy float? entropy,
      ← orElse standard.repeatPrefixChars word? chars⟩
  | _ => none

def Selector.toValue (c : Selector) : Value := .record
  [("log_repeatability", .ofFloat c.logRepeatability)]

def Selector.ofDocument? (d : Document) : Option Selector := do
  let standard : Selector := {}
  match ← record? ["log_repeatability"] d with
  | [repeatability] => some ⟨← orElse standard.logRepeatability float? repeatability⟩
  | _ => none

def Segmenter.toValue (c : Segmenter) : Value := .record
  [("log_window_lines", .ofNat c.logWindowLines.toNat),
   ("procedure_max_size", .ofNat c.procedureMaxSize.toNat),
   ("default_max_size", .ofNat c.defaultMaxSize.toNat),
   ("mixed_max_size", .ofNat c.mixedMaxSize.toNat),
   ("hard_limit_factor", .ofNat c.hardLimitFactor.toNat),
   ("step_pattern", .string c.stepPattern),
   ("extraction_rules", .array (c.extractionRules.map ExtractionRule.toValue))]

def Segmenter.fieldNames : List String :=
  ["log_window_lines", "procedure_max_size", "default_max_size", "mixed_max_size",
   "hard_limit_factor", "step_pattern", "extraction_rules"]

def Segmenter.ofDocument? (d : Document) : Option Segmenter := do
  let standard : Segmenter := {}
  match ← record? fieldNames d with
  | [window, procedure, usual, mixed, factor, step, rules] =>
    some ⟨← orElse standard.logWindowLines word? window,
      ← orElse standard.procedureMaxSize word? procedure,
      ← orElse standard.defaultMaxSize word? usual,
      ← orElse standard.mixedMaxSize word? mixed,
      ← orElse standard.hardLimitFactor word? factor,
      ← orElse standard.stepPattern string? step,
      ← orElse standard.extractionRules (list? ExtractionRule.ofDocument?) rules⟩
  | _ => none

def Compressor.toValue (c : Compressor) : Value := .record
  [("pattern_prefix_chars", .ofNat c.patternPrefixChars.toNat)]

def Compressor.ofDocument? (d : Document) : Option Compressor := do
  let standard : Compressor := {}
  match ← record? ["pattern_prefix_chars"] d with
  | [chars] => some ⟨← orElse standard.patternPrefixChars word? chars⟩
  | _ => none

def toValue (c : Config) : Value := .record
  [("detector", c.detector.toValue), ("policy", c.selector.toValue),
   ("segmenter", c.segmenter.toValue), ("compressor", c.compressor.toValue)]

def fieldNames : List String := ["detector", "policy", "segmenter", "compressor"]

def ofDocument? (d : Document) : Option Config := do
  match ← record? fieldNames d with
  | [detector, selector, segmenter, compressor] =>
    some ⟨← orElse {} Detector.ofDocument? detector,
      ← orElse {} Selector.ofDocument? selector,
      ← orElse {} Segmenter.ofDocument? segmenter,
      ← orElse {} Compressor.ofDocument? compressor⟩
  | _ => none

def ofDocument (d : Document) : Except Fault Config := do
  match ofDocument? d with
  | none => .error .unreadable
  | some c =>
    c.check
    .ok c

/- A configuration is read before it is checked. -/
def read (t : Text) : Except Fault Config :=
  match Document.read t with
  | none => .error .unreadable
  | some d => ofDocument d

end Config

end Intake
