import Intake.Config.Document
import Intake.Proofs.Json.Numeral
import Intake.Proofs.Json.Meaning

/-! What a JSON object changes in the configuration of the stages, section by section and field by
field. Reading applies the changes to the defaults; a configuration's own value states every field. -/
namespace Intake
open Json (Document Label Value)
open Json.Document (States Word Number Quote Rows Section)
open Json.Document (record? wordKnown numberKnown quoteKnown rowsKnown)
open Json.Document (wordWritten numberWritten quoteWritten rowsWritten)

namespace ExtractionRule

/- Groups are named in plain decimal. -/
def groupName (group : UInt64) : String := group.toNat.repr

inductive Mapping : Document → Table UInt64 String → Prop
  | object (pairs : List (UInt64 × String)) :
      Mapping (.object (pairs.map (fun p => (⟨groupName p.1, true⟩, .string p.2))))
        (Table.ofList pairs)

/- Unlike a section, a rule has to state each of its fields. -/
structure In (members : List (Label × Document)) (r : ExtractionRule) : Prop where
  name : States Quote members "name" (some r.name)
  pattern : States Quote members "pattern" (some r.pattern)
  mapping : States Mapping members "mapping" (some r.mapping)

theorem groupRead (group : UInt64) : groupIndex? ⟨groupName group, true⟩ = some group := by
  obtain ⟨digits, written, value⟩ := Json.readDecimal group.toNat
  have word : group.toNat < Json.Numeral.wordLimit := group.toNat_lt
  rw [groupIndex?, groupName, written]
  show (if true = true ∧ Json.decimalValue digits < Json.Numeral.wordLimit then
    some (UInt64.ofNat (Json.decimalValue digits)) else none) = some group
  rw [value, if_pos ⟨rfl, word⟩, UInt64.ofNat_toNat]

theorem groupNameInjective : Function.Injective groupName := by
  intro group other same
  have read := groupRead group
  rw [same, groupRead] at read
  exact (Option.some.inj read).symm

theorem mappingKnown {d : Document} {t : Table UInt64 String} (mapping : Mapping d t) :
    mapping? d = some t := by
  cases mapping with
  | object pairs =>
    have captures : (pairs.map (fun p => ((⟨groupName p.1, true⟩ : Label), Document.string p.2))).mapM
        capture? = some pairs := by
      refine Json.Document.allRead ?_
      rw [List.forall₂_map_left_iff, List.forall₂_same]
      intro p _
      rw [capture?, groupRead]
      rfl
    rw [mapping?, captures, Option.map_some]

def entry (p : UInt64 × String) : String × Value := (groupName p.1, .string p.2)

theorem entryInjective : Function.Injective entry := by
  intro p q same
  obtain ⟨names, values⟩ := Prod.mk.inj same
  exact Prod.ext (groupNameInjective names) (Value.string.inj values)

theorem mappingWritten (t : Table UInt64 String) : Mapping (mappingValue t).document t := by
  obtain ⟨pairs, listed, same⟩ :=
    t.renamed (fun _ => rfl) groupNameInjective entryInjective
  have value : mappingValue t = .object (pairs.map entry) := congrArg Value.object listed
  have written : (mappingValue t).document =
      .object (pairs.map (fun p => (⟨groupName p.1, true⟩, .string p.2))) := by
    rw [value, Value.document, Value.labelledMap, List.map_map]
    rfl
  have mapping := Mapping.object pairs
  rwa [same, ← written] at mapping

theorem ruleKnown {d : Document} {r : ExtractionRule} (rule : Section In d r) :
    ofDocument? d = some r := by
  cases rule with
  | object here =>
    obtain ⟨_, name, readName⟩ := here.name.required quoteKnown
    obtain ⟨_, pattern, readPattern⟩ := here.pattern.required quoteKnown
    obtain ⟨_, mapping, readMapping⟩ := here.mapping.required mappingKnown
    simp only [ofDocument?, record?, List.mapM_cons, List.mapM_nil, name, pattern, mapping,
      readName, readPattern, readMapping, Option.bind_eq_bind, Option.bind_some, Option.pure_def]

theorem ruleWritten (r : ExtractionRule) : Section In r.toValue.document r := by
  have distinct : ["name", "pattern", "mapping"].Nodup := by decide
  refine .object ⟨?name, ?pattern, ?mapping⟩
  case name => exact .written distinct rfl 0 rfl quoteWritten
  case pattern => exact .written distinct rfl 1 rfl quoteWritten
  case mapping => exact .written distinct rfl 2 rfl (mappingWritten r.mapping)

end ExtractionRule

namespace Config

structure Detector.Changes where
  logMinLines : Option UInt64 := none
  logTimeRatio : Option Float := none
  listRatio : Option Float := none
  tableRatio : Option Float := none
  identifierLineFraction : Option Float := none
  conflictEntropy : Option Float := none
  repeatPrefixChars : Option UInt64 := none

namespace Detector.Changes

def applied (c : Changes) : Detector :=
  let standard : Detector := {}
  { logMinLines := c.logMinLines.getD standard.logMinLines
    logTimeRatio := c.logTimeRatio.getD standard.logTimeRatio
    listRatio := c.listRatio.getD standard.listRatio
    tableRatio := c.tableRatio.getD standard.tableRatio
    identifierLineFraction := c.identifierLineFraction.getD standard.identifierLineFraction
    conflictEntropy := c.conflictEntropy.getD standard.conflictEntropy
    repeatPrefixChars := c.repeatPrefixChars.getD standard.repeatPrefixChars }

structure In (members : List (Label × Document)) (c : Changes) : Prop where
  logMinLines : States Word members "log_min_lines" c.logMinLines
  logTimeRatio : States Number members "log_time_ratio" c.logTimeRatio
  listRatio : States Number members "list_ratio" c.listRatio
  tableRatio : States Number members "table_ratio" c.tableRatio
  identifierLineFraction : States Number members "identifier_line_fraction" c.identifierLineFraction
  conflictEntropy : States Number members "conflict_entropy" c.conflictEntropy
  repeatPrefixChars : States Word members "repeat_prefix_chars" c.repeatPrefixChars

theorem detectorKnown {d : Document} {c : Changes} (changes : Section In d c) :
    ofDocument? d = some c.applied := by
  cases changes with
  | object here =>
    obtain ⟨_, lines, readLines⟩ := here.logMinLines.optionalSame wordKnown
    obtain ⟨_, time, readTime⟩ := here.logTimeRatio.optionalSame numberKnown
    obtain ⟨_, list, readList⟩ := here.listRatio.optionalSame numberKnown
    obtain ⟨_, table, readTable⟩ := here.tableRatio.optionalSame numberKnown
    obtain ⟨_, identifiers, readIdentifiers⟩ := here.identifierLineFraction.optionalSame numberKnown
    obtain ⟨_, entropy, readEntropy⟩ := here.conflictEntropy.optionalSame numberKnown
    obtain ⟨_, chars, readChars⟩ := here.repeatPrefixChars.optionalSame wordKnown
    simp only [ofDocument?, fieldNames, record?, List.mapM_cons, List.mapM_nil, lines, time, list,
      table, identifiers, entropy, chars, readLines, readTime, readList, readTable, readIdentifiers,
      readEntropy, readChars, Option.bind_eq_bind, Option.bind_some, Option.pure_def]
    rfl

def all (c : Detector) : Changes :=
  { logMinLines := some c.logMinLines
    logTimeRatio := some c.logTimeRatio
    listRatio := some c.listRatio
    tableRatio := some c.tableRatio
    identifierLineFraction := some c.identifierLineFraction
    conflictEntropy := some c.conflictEntropy
    repeatPrefixChars := some c.repeatPrefixChars }

theorem detectorWritten {c : Detector}
    (finite : ∀ x ∈ [c.logTimeRatio, c.listRatio, c.tableRatio, c.identifierLineFraction,
      c.conflictEntropy], x.isFinite = true) :
    Section In c.toValue.document (all c) := by
  have distinct : fieldNames.Nodup := by decide
  simp only [List.forall_mem_cons] at finite
  obtain ⟨time, list, table, identifiers, entropy, -⟩ := finite
  exact .object
    { logMinLines := .written distinct rfl 0 rfl wordWritten
      logTimeRatio := .written distinct rfl 1 rfl (numberWritten time)
      listRatio := .written distinct rfl 2 rfl (numberWritten list)
      tableRatio := .written distinct rfl 3 rfl (numberWritten table)
      identifierLineFraction := .written distinct rfl 4 rfl (numberWritten identifiers)
      conflictEntropy := .written distinct rfl 5 rfl (numberWritten entropy)
      repeatPrefixChars := .written distinct rfl 6 rfl wordWritten }

end Detector.Changes

structure Selector.Changes where
  logRepeatability : Option Float := none

namespace Selector.Changes

def applied (c : Changes) : Selector :=
  let standard : Selector := {}
  { logRepeatability := c.logRepeatability.getD standard.logRepeatability }

structure In (members : List (Label × Document)) (c : Changes) : Prop where
  logRepeatability : States Number members "log_repeatability" c.logRepeatability

theorem selectorKnown {d : Document} {c : Changes} (changes : Section In d c) :
    ofDocument? d = some c.applied := by
  cases changes with
  | object here =>
    obtain ⟨_, repeatability, readRepeatability⟩ := here.logRepeatability.optionalSame numberKnown
    simp only [ofDocument?, record?, List.mapM_cons, List.mapM_nil, repeatability,
      readRepeatability, Option.bind_eq_bind, Option.bind_some, Option.pure_def]
    rfl

def all (c : Selector) : Changes := { logRepeatability := some c.logRepeatability }

theorem selectorWritten {c : Selector} (finite : c.logRepeatability.isFinite = true) :
    Section In c.toValue.document (all c) :=
  .object { logRepeatability := .written (List.nodup_singleton _) rfl 0 rfl (numberWritten finite) }

end Selector.Changes

structure Segmenter.Changes where
  logWindowLines : Option UInt64 := none
  procedureMaxSize : Option UInt64 := none
  defaultMaxSize : Option UInt64 := none
  mixedMaxSize : Option UInt64 := none
  hardLimitFactor : Option UInt64 := none
  stepPattern : Option String := none
  extractionRules : Option (List ExtractionRule) := none

namespace Segmenter.Changes

def applied (c : Changes) : Segmenter :=
  let standard : Segmenter := {}
  { logWindowLines := c.logWindowLines.getD standard.logWindowLines
    procedureMaxSize := c.procedureMaxSize.getD standard.procedureMaxSize
    defaultMaxSize := c.defaultMaxSize.getD standard.defaultMaxSize
    mixedMaxSize := c.mixedMaxSize.getD standard.mixedMaxSize
    hardLimitFactor := c.hardLimitFactor.getD standard.hardLimitFactor
    stepPattern := c.stepPattern.getD standard.stepPattern
    extractionRules := c.extractionRules.getD standard.extractionRules }

structure In (members : List (Label × Document)) (c : Changes) : Prop where
  logWindowLines : States Word members "log_window_lines" c.logWindowLines
  procedureMaxSize : States Word members "procedure_max_size" c.procedureMaxSize
  defaultMaxSize : States Word members "default_max_size" c.defaultMaxSize
  mixedMaxSize : States Word members "mixed_max_size" c.mixedMaxSize
  hardLimitFactor : States Word members "hard_limit_factor" c.hardLimitFactor
  stepPattern : States Quote members "step_pattern" c.stepPattern
  extractionRules : States (Rows (Section ExtractionRule.In)) members "extraction_rules"
    c.extractionRules

theorem segmenterKnown {d : Document} {c : Changes} (changes : Section In d c) :
    ofDocument? d = some c.applied := by
  cases changes with
  | object here =>
    obtain ⟨_, window, readWindow⟩ := here.logWindowLines.optionalSame wordKnown
    obtain ⟨_, procedure, readProcedure⟩ := here.procedureMaxSize.optionalSame wordKnown
    obtain ⟨_, usual, readUsual⟩ := here.defaultMaxSize.optionalSame wordKnown
    obtain ⟨_, mixed, readMixed⟩ := here.mixedMaxSize.optionalSame wordKnown
    obtain ⟨_, factor, readFactor⟩ := here.hardLimitFactor.optionalSame wordKnown
    obtain ⟨_, step, readStep⟩ := here.stepPattern.optionalSame quoteKnown
    obtain ⟨_, rules, readRules⟩ :=
      here.extractionRules.optionalSame fun rows => rowsKnown rows ExtractionRule.ruleKnown
    simp only [ofDocument?, fieldNames, record?, List.mapM_cons, List.mapM_nil, window, procedure,
      usual, mixed, factor, step, rules, readWindow, readProcedure, readUsual, readMixed,
      readFactor, readStep, readRules, Option.bind_eq_bind, Option.bind_some, Option.pure_def]
    rfl

def all (c : Segmenter) : Changes :=
  { logWindowLines := some c.logWindowLines
    procedureMaxSize := some c.procedureMaxSize
    defaultMaxSize := some c.defaultMaxSize
    mixedMaxSize := some c.mixedMaxSize
    hardLimitFactor := some c.hardLimitFactor
    stepPattern := some c.stepPattern
    extractionRules := some c.extractionRules }

theorem segmenterWritten (c : Segmenter) : Section In c.toValue.document (all c) := by
  have distinct : fieldNames.Nodup := by decide
  have rules := rowsWritten fun r (_ : r ∈ c.extractionRules) => r.ruleWritten
  exact .object
    { logWindowLines := .written distinct rfl 0 rfl wordWritten
      procedureMaxSize := .written distinct rfl 1 rfl wordWritten
      defaultMaxSize := .written distinct rfl 2 rfl wordWritten
      mixedMaxSize := .written distinct rfl 3 rfl wordWritten
      hardLimitFactor := .written distinct rfl 4 rfl wordWritten
      stepPattern := .written distinct rfl 5 rfl quoteWritten
      extractionRules := .written distinct rfl 6 rfl rules }

end Segmenter.Changes

structure Compressor.Changes where
  patternPrefixChars : Option UInt64 := none

namespace Compressor.Changes

def applied (c : Changes) : Compressor :=
  let standard : Compressor := {}
  { patternPrefixChars := c.patternPrefixChars.getD standard.patternPrefixChars }

structure In (members : List (Label × Document)) (c : Changes) : Prop where
  patternPrefixChars : States Word members "pattern_prefix_chars" c.patternPrefixChars

theorem compressorKnown {d : Document} {c : Changes} (changes : Section In d c) :
    ofDocument? d = some c.applied := by
  cases changes with
  | object here =>
    obtain ⟨_, chars, readChars⟩ := here.patternPrefixChars.optionalSame wordKnown
    simp only [ofDocument?, record?, List.mapM_cons, List.mapM_nil, chars, readChars,
      Option.bind_eq_bind, Option.bind_some, Option.pure_def]
    rfl

def all (c : Compressor) : Changes := { patternPrefixChars := some c.patternPrefixChars }

theorem compressorWritten (c : Compressor) : Section In c.toValue.document (all c) :=
  .object { patternPrefixChars := .written (List.nodup_singleton _) rfl 0 rfl wordWritten }

end Compressor.Changes

/- For each section that is stated, what it changes. -/
structure Changes where
  detector : Option Detector.Changes := none
  selector : Option Selector.Changes := none
  segmenter : Option Segmenter.Changes := none
  compressor : Option Compressor.Changes := none

namespace Changes

def applied (c : Changes) : Config :=
  let standard : Config := {}
  { detector := (c.detector.map Detector.Changes.applied).getD standard.detector
    selector := (c.selector.map Selector.Changes.applied).getD standard.selector
    segmenter := (c.segmenter.map Segmenter.Changes.applied).getD standard.segmenter
    compressor := (c.compressor.map Compressor.Changes.applied).getD standard.compressor }

structure In (members : List (Label × Document)) (c : Changes) : Prop where
  detector : States (Section Detector.Changes.In) members "detector" c.detector
  selector : States (Section Selector.Changes.In) members "policy" c.selector
  segmenter : States (Section Segmenter.Changes.In) members "segmenter" c.segmenter
  compressor : States (Section Compressor.Changes.In) members "compressor" c.compressor

theorem changesKnown {d : Document} {c : Changes} (changes : Section In d c) :
    ofDocument? d = some c.applied := by
  cases changes with
  | object here =>
    obtain ⟨_, detector, readDetector⟩ := here.detector.optional Detector.Changes.detectorKnown
    obtain ⟨_, selector, readSelector⟩ := here.selector.optional Selector.Changes.selectorKnown
    obtain ⟨_, segmenter, readSegmenter⟩ := here.segmenter.optional Segmenter.Changes.segmenterKnown
    obtain ⟨_, compressor, readCompressor⟩ :=
      here.compressor.optional Compressor.Changes.compressorKnown
    simp only [ofDocument?, fieldNames, record?, List.mapM_cons, List.mapM_nil, detector, selector,
      segmenter, compressor, readDetector, readSelector, readSegmenter, readCompressor,
      Option.bind_eq_bind, Option.bind_some, Option.pure_def]
    rfl

def all (c : Config) : Changes :=
  { detector := some (.all c.detector)
    selector := some (.all c.selector)
    segmenter := some (.all c.segmenter)
    compressor := some (.all c.compressor) }

theorem allApplied (c : Config) : (all c).applied = c := rfl

/- The floats of a sound configuration are all numbers of JSON. -/
theorem changesWritten {c : Config} (sound : c.Sound) : Section In c.toValue.document (all c) := by
  have distinct : fieldNames.Nodup := by decide
  have finite : ∀ t : Threshold, (t.value c).isFinite = true := fun t => by
    have acceptable := sound.thresholds t
    rw [Threshold.acceptable, Bool.and_eq_true] at acceptable
    exact acceptable.1
  have detector : Section Detector.Changes.In c.detector.toValue.document (.all c.detector) := by
    refine Detector.Changes.detectorWritten ?_
    simp only [List.forall_mem_cons, List.not_mem_nil, false_implies, implies_true, and_true]
    exact ⟨finite .logTimeRatio, finite .listRatio, finite .tableRatio,
      finite .identifierLineFraction, finite .conflictEntropy⟩
  have selector := Selector.Changes.selectorWritten (finite .logRepeatability)
  exact .object
    { detector := .written distinct rfl 0 rfl detector
      selector := .written distinct rfl 1 rfl selector
      segmenter := .written distinct rfl 2 rfl (Segmenter.Changes.segmenterWritten c.segmenter)
      compressor := .written distinct rfl 3 rfl (Compressor.Changes.compressorWritten c.compressor) }

end Changes

end Config

end Intake
