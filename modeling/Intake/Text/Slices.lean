import Intake.Text.Basic

/-! Slices of a text taken on one walk. Spans that ascend are met as the walk goes on; a span
that starts behind the place reached begins it anew. Either way each slice is the one that its
span alone would give. -/
namespace Intake.Text

/- The first place from a position on, where a text stands at a known position. -/
def seek (start position : Nat) : Text → Nat × Text
  | [] => (position, [])
  | c :: rest =>
    if start ≤ position then (position, c :: rest) else seek start (position + c.utf8Size) rest

theorem seekSkip (start position : Nat) (t : Text) :
    (seek start position t).2 = skip (start - position) t := by
  induction t generalizing position with
  | nil => cases start - position <;> rfl
  | cons c t ih =>
    unfold seek
    split
    · rename_i reached
      simp [Nat.sub_eq_zero_of_le reached]
    · obtain ⟨n, ahead⟩ := Nat.exists_eq_succ_of_ne_zero (n := start - position) (by omega)
      have left : start - (position + c.utf8Size) = n + 1 - c.utf8Size := by omega
      simp only [ih, left, ahead, Nat.succ_eq_add_one, skip]

theorem seekForward (start position : Nat) (t : Text) : position ≤ (seek start position t).1 := by
  induction t generalizing position with
  | nil => simp [seek]
  | cons c t ih =>
    unfold seek
    split
    · exact Nat.le_refl _
    · exact Nat.le_trans (Nat.le_add_right _ _) (ih _)

/- A walk may be broken off and taken up again. -/
theorem seekOn {start later position : Nat} {t : Text}
    (h : (seek start position t).1 ≤ later) :
    seek later (seek start position t).1 (seek start position t).2 = seek later position t := by
  induction t generalizing position with
  | nil => rfl
  | cons c t ih =>
    by_cases reached : start ≤ position
    · simp [seek, reached]
    · have onward : seek start position (c :: t) = seek start (position + c.utf8Size) t := by
        simp [seek, reached]
      rw [onward] at h ⊢
      have further := seekForward start (position + c.utf8Size) t
      have positive := charPositive c
      have beyond : ¬ later ≤ position := by omega
      rw [ih h, seek, if_neg beyond]

def slicesFrom (t : Text) (position : Nat) (ahead : Text) : List Span → List Text
  | [] => []
  | s :: spans =>
    let (position, ahead) :=
      if position ≤ s.start then seek s.start position ahead else seek s.start 0 t
    first s.size ahead :: slicesFrom t position ahead spans

def slices (t : Text) (spans : List Span) : List Text := slicesFrom t 0 t spans

theorem slicesFromMap (t : Text) (start : Nat) (spans : List Span) :
    slicesFrom t (seek start 0 t).1 (seek start 0 t).2 spans = spans.map t.slice := by
  induction spans generalizing start with
  | nil => rfl
  | cons s spans ih =>
    have walk : (if (seek start 0 t).1 ≤ s.start
        then seek s.start (seek start 0 t).1 (seek start 0 t).2 else seek s.start 0 t) =
        seek s.start 0 t := by
      split
      · exact seekOn (by assumption)
      · rfl
    simp only [slicesFrom, walk, ih, List.map_cons]
    simp only [slice, seekSkip, Nat.sub_zero]

theorem slicesMap (t : Text) (spans : List Span) : t.slices spans = spans.map t.slice := by
  have begins : seek 0 0 t = (0, t) := by cases t <;> simp [seek]
  simpa [begins, slices] using slicesFromMap t 0 spans

/- What is made of each span and its slice. -/
theorem zipSlices {α β : Type} (t : Text) (span : α → Span) (f : α → Text → β) (xs : List α) :
    List.zipWith f xs (t.slices (xs.map span)) = xs.map (fun x => f x (t.slice (span x))) := by
  rw [slicesMap]
  induction xs with
  | nil => rfl
  | cons x xs ih => simpa using ih

end Intake.Text
