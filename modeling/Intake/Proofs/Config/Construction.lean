import Intake.Pipeline
import Intake.Proofs.Config.Reading

/-! Construction. A configuration is made into stages when every setting is good and every pattern
compiles. Otherwise one fault is reported, whatever else is wrong: the first setting at fault, in the
order of the check; then the step pattern; then the first rule whose pattern does not compile. -/
namespace Intake

/- The first member of a list that is not good. -/
def First {α : Type} (good : α → Prop) (xs : List α) (x : α) : Prop :=
  ∃ before after, xs = before ++ x :: after ∧ (∀ y ∈ before, good y) ∧ ¬ good x

section First
variable {α : Type} {good : α → Prop} {xs : List α} {x y : α}

theorem firstFind [DecidablePred good] :
    xs.find? (fun x => decide (¬ good x)) = some x ↔ First good xs x := by
  rw [List.find?_eq_some_iff_append, First]
  simp only [decide_not, Bool.not_eq_true', Bool.not_not, decide_eq_false_iff_not, decide_eq_true_eq]
  constructor
  · rintro ⟨bad, before, after, parts, earlier⟩
    exact ⟨before, after, parts, earlier, bad⟩
  · rintro ⟨before, after, parts, earlier, bad⟩
    exact ⟨bad, before, after, parts, earlier⟩

/- Where there is no first one, all are good. -/
theorem firstNone : (∀ x, ¬ First good xs x) ↔ ∀ x ∈ xs, good x := by
  classical
  constructor
  · intro none x hx
    have nothing : xs.find? (fun x => decide (¬ good x)) = Option.none :=
      Option.eq_none_iff_forall_ne_some.2 fun x found => none x (firstFind.1 found)
    simpa using List.find?_eq_none.1 nothing x hx
  · rintro all x ⟨before, after, rfl, -, bad⟩
    exact bad (all x (by simp))

theorem firstHere (bad : ¬ good x) : First good (x :: xs) y ↔ y = x := by
  constructor
  · rintro ⟨before, after, parts, earlier, -⟩
    cases before with
    | nil => exact (List.cons.inj parts).1.symm
    | cons z before =>
      obtain ⟨rfl, -⟩ := List.cons.inj parts
      exact absurd (earlier x List.mem_cons_self) bad
  · rintro rfl
    exact ⟨[], xs, rfl, by simp, bad⟩

theorem firstLater (fine : good x) : First good (x :: xs) y ↔ First good xs y := by
  constructor
  · rintro ⟨before, after, parts, earlier, bad⟩
    cases before with
    | nil =>
      obtain ⟨rfl, -⟩ := List.cons.inj parts
      exact absurd fine bad
    | cons z before =>
      exact ⟨before, after, (List.cons.inj parts).2, (List.forall_mem_cons.1 earlier).2, bad⟩
  · rintro ⟨before, after, rfl, earlier, bad⟩
    exact ⟨x :: before, after, rfl, List.forall_mem_cons.2 ⟨fine, earlier⟩, bad⟩

end First

namespace Threshold
open Float.Model (UnpackedFloat)

/- A number that is not below zero is at least zero, and so is a zero of either sign. -/
theorem notBelow {x : Float} (finite : x.isFinite = true) : ¬ x < 0.0 ↔ 0.0 ≤ x := by
  have zero : (0.0 : Float).toModel.unpack = .zero .positive := rfl
  have below : x < 0.0 ↔ x.toModel.unpack.lt (.zero .positive) = true := by
    show decide (x.toModel.unpack.lt (0.0 : Float).toModel.unpack = true) = true ↔ _
    rw [zero, decide_eq_true_eq]
  have above : 0.0 ≤ x ↔ UnpackedFloat.le (.zero .positive) x.toModel.unpack = true := by
    show decide ((0.0 : Float).toModel.unpack.le x.toModel.unpack = true) = true ↔ _
    rw [zero, decide_eq_true_eq]
  have number : x.toModel.unpack.isFinite = true := finite
  rw [below, above]
  generalize x.toModel.unpack = u at number
  cases u with
  | notANumber => cases number
  | infinity => cases number
  | zero sign => cases sign <;> decide
  | finite sign => cases sign <;> simp [UnpackedFloat.lt, UnpackedFloat.le, UnpackedFloat.compare]

theorem acceptableIff {x : Float} : acceptable x = true ↔ x.isFinite = true ∧ 0.0 ≤ x := by
  rw [acceptable, Bool.and_eq_true, Bool.not_eq_true', decide_eq_false_iff_not]
  exact and_congr_right notBelow

end Threshold

namespace Config

/- What the check looks at, in its order. -/
inductive Setting where
  | threshold (t : Threshold)
  | size (s : SizeSetting)
  | stepPattern
  deriving DecidableEq, Repr

namespace Setting

def all : List Setting := Threshold.all.map threshold ++ (SizeSetting.all.map size ++ [stepPattern])

theorem memberAll (x : Setting) : x ∈ all := by
  cases x with
  | threshold t => exact List.mem_append_left _ (List.mem_map.2 ⟨t, t.memberAll, rfl⟩)
  | size s =>
    exact List.mem_append_right _ (List.mem_append_left _ (List.mem_map.2 ⟨s, s.memberAll, rfl⟩))
  | stepPattern => simp [all]

def Good (c : Config) : Setting → Prop
  | threshold t => (t.value c).isFinite = true ∧ 0.0 ≤ t.value c
  | size s => s.value c ≠ 0
  | stepPattern => c.segmenter.stepPattern ≠ ""

instance (c : Config) : DecidablePred (Good c)
  | threshold _ => inferInstanceAs (Decidable (_ ∧ _))
  | size _ => inferInstanceAs (Decidable (_ ≠ _))
  | stepPattern => inferInstanceAs (Decidable (_ ≠ _))

def name : Setting → String
  | threshold t => t.name
  | size s => s.name
  | stepPattern => "segmenter.step_pattern"

def demand : Setting → String
  | threshold _ => "be a finite, non-negative number"
  | size _ => "be greater than zero"
  | stepPattern => "not be empty"

def fault : Setting → Fault
  | threshold t => .badThreshold t
  | size s => .zeroSize s
  | stepPattern => .emptyStepPattern

theorem saidOf {said demand : String} (joined : said = " must " ++ demand) (name : String) :
    "Configuration error: " ++ name ++ said = "Configuration error: " ++ name ++ " must " ++ demand := by
  rw [joined, ← String.append_assoc]

/- The fault of a setting names it. -/
theorem faultNames (x : Setting) : x.fault.OfConfiguration ∧
    x.fault.message = "Configuration error: " ++ x.name ++ " must " ++ x.demand := by
  cases x with
  | threshold t =>
    have joined : " must be a finite, non-negative number" = " must " ++ demand (.threshold t) := rfl
    exact ⟨.threshold, saidOf joined t.name⟩
  | size s =>
    have joined : " must be greater than zero" = " must " ++ demand (.size s) := rfl
    exact ⟨.size, saidOf joined s.name⟩
  | stepPattern => exact ⟨.stepPattern, rfl⟩

end Setting

theorem settingsFind {c : Config} {α : Type} {setting : α → Setting} {faulty : α → Bool}
    (same : ∀ a, faulty a = true ↔ ¬ (setting a).Good c) (as : List α) :
    (as.map setting).find? (fun x => decide (¬ x.Good c)) = (as.find? faulty).map setting := by
  have alike : (fun x => decide (¬ Setting.Good c x)) ∘ setting = faulty := funext fun a => by
    rw [Function.comp_apply, Bool.eq_iff_iff, decide_eq_true_eq, same]
  rw [List.find?_map, alike]

/- Thresholds, sizes and the step pattern make up one list that is searched. -/
theorem checkFind (c : Config) : c.check =
    match Setting.all.find? (fun x => decide (¬ x.Good c)) with
    | some x => .error x.fault
    | none => .ok () := by
  have badThreshold : ∀ t, (!Threshold.acceptable (t.value c)) = true ↔
      ¬ (Setting.threshold t).Good c := fun t => by
    rw [Bool.not_eq_true', ← Bool.not_eq_true, Threshold.acceptableIff]
    rfl
  have zeroSize : ∀ s, (SizeSetting.value c s == 0) = true ↔ ¬ (Setting.size s).Good c := fun s =>
    beq_iff_eq.trans not_not.symm
  rw [Setting.all, List.find?_append, List.find?_append, settingsFind badThreshold,
    settingsFind zeroSize, ← badThreshold?, ← zeroSize?, check]
  cases c.badThreshold? with
  | some t => rfl
  | none =>
    cases c.zeroSize? with
    | some s => rfl
    | none =>
      by_cases empty : c.segmenter.stepPattern = ""
      · simp [Setting.Good, Setting.fault, empty]
      · simp [Setting.Good, empty]

theorem checkRefused {c : Config} {f : Fault} :
    c.check = .error f ↔ ∃ x, First (Setting.Good c) Setting.all x ∧ f = x.fault := by
  rw [checkFind]
  simp only [← firstFind]
  cases Setting.all.find? (fun x => decide (¬ x.Good c)) <;> simp [eq_comm]

theorem checkAccepted {c : Config} : c.check = .ok () ↔ ∀ x : Setting, x.Good c := by
  rw [checkFind]
  split
  · rename_i x found
    obtain ⟨-, -, -, -, bad⟩ := firstFind.1 found
    exact ⟨nofun, fun good => absurd (good x) bad⟩
  · rename_i nothing
    refine ⟨fun _ x => ?_, fun _ => rfl⟩
    simpa using List.find?_eq_none.1 nothing x x.memberAll

end Config

/- A pattern that can be read. -/
def Pattern.Compiles (pattern : String) : Prop := ∃ p, Pattern.read pattern.toList = some p

def ExtractionRule.Compiles (r : ExtractionRule) : Prop := Pattern.Compiles r.pattern

/- A step is refused, or the one behind it is. -/
theorem bindRefused {α β : Type} {made : Except Fault α} {next : α → Except Fault β} {f : Fault} :
    made >>= next = .error f ↔ made = .error f ∨ ∃ a, made = .ok a ∧ next a = .error f := by
  cases made <;> simp [bind, Except.bind]

namespace Feature

theorem compileCases (r : ExtractionRule) :
    r.Compiles ∧ (∃ rule, compile r = .ok rule) ∨
      ¬ r.Compiles ∧ compile r = .error (.badPattern r.name) := by
  rw [compile]
  cases read : Pattern.read r.pattern.toList with
  | some p => exact .inl ⟨⟨p, read⟩, _, rfl⟩
  | none =>
    refine .inr ⟨fun ⟨p, found⟩ => ?_, rfl⟩
    cases read.symm.trans found

theorem compileAllRefused {rules : List ExtractionRule} {f : Fault} : compileAll rules = .error f ↔
    ∃ r, First ExtractionRule.Compiles rules r ∧ f = .badPattern r.name := by
  induction rules with
  | nil => simp [compileAll, First]
  | cons r rest ih =>
    rw [compileAll, bindRefused]
    rcases compileCases r with ⟨compiles, rule, made⟩ | ⟨broken, refused⟩
    · simp only [firstLater compiles, ← ih, made, bindRefused]
      simp
    · simp only [firstHere broken, refused]
      simp [eq_comm]

end Feature

theorem Segmenter.ofConfigRefused {c : Config.Segmenter} {f : Fault} : ofConfig c = .error f ↔
    ¬ Pattern.Compiles c.stepPattern ∧ f = .badPattern "step_pattern" ∨
      Pattern.Compiles c.stepPattern ∧ Feature.compileAll c.extractionRules = .error f := by
  rw [ofConfig, Pattern.Compiles]
  cases Pattern.read c.stepPattern.toList with
  | none => simp [eq_comm]
  | some marker => simp [bindRefused]

namespace Stages

structure Buildable (c : Config) : Prop where
  thresholds : ∀ t : Threshold, (t.value c).isFinite = true ∧ 0.0 ≤ t.value c
  sizes : ∀ s : SizeSetting, s.value c ≠ 0
  stepPattern : c.segmenter.stepPattern ≠ ""
  compiles : Pattern.Compiles c.segmenter.stepPattern
  rules : ∀ r ∈ c.segmenter.extractionRules, r.Compiles

/- The fault that is reported: settings come before patterns, and the step pattern before the rules. -/
inductive Refusal (c : Config) : Fault → Prop
  | setting {x : Config.Setting} (first : First (Config.Setting.Good c) Config.Setting.all x) :
      Refusal c x.fault
  | stepPattern (settings : ∀ x : Config.Setting, x.Good c)
      (broken : ¬ Pattern.Compiles c.segmenter.stepPattern) : Refusal c (.badPattern "step_pattern")
  | rule {r : ExtractionRule} (settings : ∀ x : Config.Setting, x.Good c)
      (step : Pattern.Compiles c.segmenter.stepPattern)
      (first : First ExtractionRule.Compiles c.segmenter.extractionRules r) :
      Refusal c (.badPattern r.name)

theorem settingsGood {c : Config} : (∀ x : Config.Setting, x.Good c) ↔
    (∀ t : Threshold, (t.value c).isFinite = true ∧ 0.0 ≤ t.value c) ∧
    (∀ s : SizeSetting, s.value c ≠ 0) ∧ c.segmenter.stepPattern ≠ "" := by
  refine ⟨fun good => ⟨fun t => good (.threshold t), fun s => good (.size s), good .stepPattern⟩, ?_⟩
  rintro ⟨thresholds, sizes, stepPattern⟩ x
  cases x with
  | threshold t => exact thresholds t
  | size s => exact sizes s
  | stepPattern => exact stepPattern

theorem ofConfigRefused {c : Config} {f : Fault} :
    ofConfig c = .error f ↔ c.check = .error f ∨
      c.check = .ok () ∧ Segmenter.ofConfig c.segmenter = .error f := by
  have unit : (∃ u, c.check = .ok u) ↔ c.check = .ok () := ⟨fun ⟨_, made⟩ => made, fun made => ⟨(), made⟩⟩
  rw [ofConfig, bindRefused]
  simp [bindRefused, unit]

theorem refusedIff {c : Config} {f : Fault} : ofConfig c = .error f ↔ Refusal c f := by
  rw [ofConfigRefused, Segmenter.ofConfigRefused, Config.checkRefused, Config.checkAccepted,
    Feature.compileAllRefused]
  constructor
  · rintro (⟨x, first, rfl⟩ | ⟨settings, ⟨broken, rfl⟩ | ⟨step, r, first, rfl⟩⟩)
    · exact .setting first
    · exact .stepPattern settings broken
    · exact .rule settings step first
  · intro refusal
    cases refusal with
    | setting first => exact .inl ⟨_, first, rfl⟩
    | stepPattern settings broken => exact .inr ⟨settings, .inl ⟨broken, rfl⟩⟩
    | rule settings step first => exact .inr ⟨settings, .inr ⟨step, _, first, rfl⟩⟩

theorem buildableIff {c : Config} : Buildable c ↔ ∀ f, ¬ Refusal c f := by
  constructor
  · rintro ⟨thresholds, sizes, stepPattern, compiles, rules⟩ f refusal
    cases refusal with
    | setting first =>
      exact firstNone.2 (fun x _ => settingsGood.2 ⟨thresholds, sizes, stepPattern⟩ x) _ first
    | stepPattern settings broken => exact broken compiles
    | rule settings step first => exact firstNone.2 rules _ first
  · intro none
    have settings : ∀ x : Config.Setting, x.Good c := fun x =>
      firstNone.1 (fun _ first => none _ (.setting first)) x x.memberAll
    have step : Pattern.Compiles c.segmenter.stepPattern := by
      by_contra broken
      exact none _ (.stepPattern settings broken)
    obtain ⟨thresholds, sizes, stepPattern⟩ := settingsGood.1 settings
    exact ⟨thresholds, sizes, stepPattern, step,
      firstNone.1 fun _ first => none _ (.rule settings step first)⟩

theorem madeIff {c : Config} : (∃ s, ofConfig c = .ok s) ↔ ∀ f, ofConfig c ≠ .error f := by
  cases ofConfig c <;> simp

/- A negative threshold comes before a size of zero, whatever the patterns are. -/
example : ofConfig
    { selector := { logRepeatability := -1.0 }
      segmenter := { stepPattern := "(", hardLimitFactor := 0 } } =
    .error (.badThreshold .logRepeatability) := rfl

end Stages

end Intake
