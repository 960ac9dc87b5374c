import Intake.Proofs.Segment.Numeric
import Intake.Segment.Feature

/-! What is stored for a key: the value of the text that was captured for it last. It is a number if
that text is an integer, or a decimal with a point; a decimal without one stays a text. -/
namespace Intake.Feature
open Numeric (value Typed Pointed WordInteger FiniteFloat)

theorem recordKept {cs : List Capture} {m : Metadata} {k : String}
    (other : ∀ c ∈ cs, c.key ≠ k) : (cs.foldl record m).get? k = m.get? k := by
  induction cs generalizing m with
  | nil => rfl
  | cons c cs ih =>
    obtain ⟨head, tail⟩ := List.forall_mem_cons.1 other
    have apart : compare k c.key ≠ .eq := fun same => head (Std.LawfulEqOrd.eq_of_compare same).symm
    rw [List.foldl_cons, ih tail, record, Metadata.getSet, if_neg apart]

theorem lastStored {rules : List CompiledRule} {content : Text} {before after : List Capture}
    {c : Capture} (captured : captures rules content = before ++ c :: after)
    (last : ∀ d ∈ after, d.key ≠ c.key) :
    (extract rules content).get? c.key = some (value c.text) := by
  rw [extract, captured, List.foldl_append, List.foldl_cons, recordKept last, record,
    Metadata.getSet, if_pos (Std.ReflCmp.compare_self)]

/- Of several values for one key the last is kept, so what a text is stored as is asked for its last
capture. -/
theorem storedTyped {rules : List CompiledRule} {content : Text} {before after : List Capture}
    {c : Capture} (captured : captures rules content = before ++ c :: after)
    (last : ∀ d ∈ after, d.key ≠ c.key) :
    ∃ v, (extract rules content).get? c.key = some v ∧ Typed Pointed c.text v ∧
      (Typed (fun _ => True) c.text v ↔
        Pointed c.text ∨ (∃ n, WordInteger c.text n) ∨ ∀ x, ¬ FiniteFloat c.text x) :=
  ⟨value c.text, lastStored captured last, Numeric.valueTyped c.text, Numeric.valueReads c.text⟩

/- A time in seconds with its unit. -/
def timeRule : ExtractionRule :=
  ⟨"time", "([0-9.e]+)(s)", .ofList [(1, "time"), (2, "unit")]⟩

theorem timesCaptured (t : Text) (cs : List Capture)
    (captured : (compile timeRule).map (fun r => captures [r] t) = .ok cs) :
    ∃ r, compile timeRule = .ok r ∧ captures [r] t = cs := by
  cases made : compile timeRule with
  | error f =>
    rw [made] at captured
    cases captured
  | ok r =>
    rw [made] at captured
    exact ⟨r, rfl, Except.ok.inj captured⟩

theorem pointedTimeTyped : ∃ r, compile timeRule = .ok r ∧
    ∃ v, (extract [r] "1.5s".toList).get? "time" = some v ∧ Typed Pointed "1.5".toList v ∧
      (Typed (fun _ => True) "1.5".toList v ↔ Pointed "1.5".toList ∨
        (∃ n, WordInteger "1.5".toList n) ∨ ∀ x, ¬ FiniteFloat "1.5".toList x) := by
  obtain ⟨r, compiled, captured⟩ := timesCaptured "1.5s".toList
    [⟨"time", "1.5".toList⟩, ⟨"unit", "s".toList⟩] (by cbv)
  have last : ∀ d ∈ [(⟨"unit", "s".toList⟩ : Capture)], d.key ≠ "time" := by decide
  exact ⟨r, compiled, @storedTyped [r] "1.5s".toList [] _ ⟨"time", "1.5".toList⟩ captured last⟩

theorem exponentStaysText : ∃ r, compile timeRule = .ok r ∧
    captures [r] "1e5s".toList = [⟨"time", "1e5".toList⟩, ⟨"unit", "s".toList⟩] ∧
    FiniteFloat "1e5".toList (Float.ofBits 0x40f86a0000000000) ∧
    (extract [r] "1e5s".toList).get? "time" = some (.string "1e5") ∧
    ¬ Typed (fun _ => True) "1e5".toList (.string "1e5") := by
  obtain ⟨r, compiled, captured⟩ := timesCaptured "1e5s".toList
    [⟨"time", "1e5".toList⟩, ⟨"unit", "s".toList⟩] (by cbv)
  have last : ∀ d ∈ [(⟨"unit", "s".toList⟩ : Capture)], d.key ≠ "time" := by decide
  have stored := @lastStored [r] "1e5s".toList [] _ ⟨"time", "1e5".toList⟩ captured last
  have decimal : FiniteFloat "1e5".toList (Float.ofBits 0x40f86a0000000000) :=
    Numeric.finiteFloatIff.1 ⟨by rfl, by decide +kernel⟩
  refine ⟨r, compiled, captured, decimal, stored, fun reads => ?_⟩
  cases reads with
  | text _ neither => exact neither trivial _ decimal

end Intake.Feature
