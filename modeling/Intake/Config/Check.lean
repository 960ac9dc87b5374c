import Intake.Fault

/-! The check of a configuration: thresholds first, then sizes, then the step pattern. The
first setting at fault is the one reported. -/
namespace Intake.Config

def badThreshold? (c : Config) : Option Threshold :=
  Threshold.all.find? (fun t => !Threshold.acceptable (t.value c))

def zeroSize? (c : Config) : Option SizeSetting :=
  SizeSetting.all.find? (fun s => s.value c == 0)

def check (c : Config) : Except Fault Unit :=
  match c.badThreshold?, c.zeroSize? with
  | some t, _ => .error (.badThreshold t)
  | none, some s => .error (.zeroSize s)
  | none, none => if c.segmenter.stepPattern = "" then .error .emptyStepPattern else .ok ()

structure Sound (c : Config) : Prop where
  thresholds : ∀ t : Threshold, Threshold.acceptable (t.value c) = true
  sizes : ∀ s : SizeSetting, s.value c ≠ 0
  stepPattern : c.segmenter.stepPattern ≠ ""

theorem checkSound (c : Config) : c.check = .ok () ↔ c.Sound := by
  unfold check
  constructor
  · intro h
    split at h
    · cases h
    · cases h
    · rename_i noThreshold noSize
      split at h
      · cases h
      · rename_i step
        refine ⟨fun t => ?_, fun s => ?_, step⟩
        · simpa using List.find?_eq_none.1 noThreshold t t.memberAll
        · simpa using List.find?_eq_none.1 noSize s s.memberAll
  · intro sound
    have noThreshold : c.badThreshold? = none := by
      simp [badThreshold?, sound.thresholds]
    have noSize : c.zeroSize? = none := by
      simp [zeroSize?, sound.sizes]
    simp [noThreshold, noSize, sound.stepPattern]

end Intake.Config
