/-! Sets of code points as runs: every stride-th code point from a first one to a last one.
A table of runs is sorted by first code point, so a look-up stops at the first run that
begins beyond the code point asked for. -/
namespace Intake.Unicode

structure Run where
  first : Nat
  last : Nat
  stride : Nat
  deriving DecidableEq, Repr

namespace Run

def Holds (r : Run) (n : Nat) : Prop :=
  r.first ≤ n ∧ n ≤ r.last ∧ (n - r.first) % r.stride = 0

instance (r n) : Decidable (Holds r n) := by unfold Holds; infer_instance

def members (r : Run) : List Nat :=
  (List.range ((r.last - r.first) / r.stride + 1)).map (fun i => r.first + i * r.stride)

end Run

def covers (n : Nat) : List Run → Bool
  | [] => false
  | r :: rest => if n < r.first then false else decide (r.Holds n) || covers n rest

/- Stopping early loses nothing: beyond the first run that begins too late all begin too late. -/
theorem coversIff {n : Nat} {runs : List Run}
    (sorted : runs.Pairwise (fun a b => a.first ≤ b.first)) :
    covers n runs = true ↔ ∃ r ∈ runs, r.Holds n := by
  induction runs with
  | nil => simp [covers]
  | cons r rest ih =>
    have tail := List.pairwise_cons.1 sorted
    unfold covers
    split
    · rename_i early
      simp only [Bool.false_eq_true, false_iff, not_exists, not_and]
      intro q hq holds
      have := holds.1
      rcases List.mem_cons.1 hq with rfl | hq
      · omega
      · have := tail.1 q hq; omega
    · simp [ih tail.2]

end Intake.Unicode
