import Intake.Text.Slices

/-! Spans laid out over a text. A break is a position between two characters, or at either
end; a span lies within the text when it runs from a break to a break. Spans are laid out when
they follow one another, and then the text is what they cover and what they leave between. -/
namespace Intake

namespace Span

/- A position that a span covers. -/
def Holds (s : Span) (n : Nat) : Prop := s.start ≤ n ∧ n < s.stop

/- A span that does not reach beyond another one. -/
def Inside (a b : Span) : Prop := b.start ≤ a.start ∧ a.stop ≤ b.stop

theorem insideSelf (a : Span) : a.Inside a := ⟨Nat.le_refl _, Nat.le_refl _⟩

theorem insideTrans {a b c : Span} (inner : a.Inside b) (outer : b.Inside c) : a.Inside c :=
  ⟨Nat.le_trans outer.1 inner.1, Nat.le_trans inner.2 outer.2⟩

theorem insideHolds {a b : Span} (inside : a.Inside b) {n : Nat} (holds : a.Holds n) : b.Holds n :=
  ⟨Nat.le_trans inside.1 holds.1, Nat.lt_of_lt_of_le holds.2 inside.2⟩

theorem insideBoth {a b : Span} (inner : a.Inside b) (outer : b.Inside a) : a = b := by
  obtain ⟨start, stop⟩ := a
  obtain ⟨start', stop'⟩ := b
  have starts : start = start' := Nat.le_antisymm outer.1 inner.1
  have stops : stop = stop' := Nat.le_antisymm inner.2 outer.2
  rw [starts, stops]

end Span

end Intake

namespace Intake.Text

def Break (t : Text) (n : Nat) : Prop := ∃ before after, t = before ++ after ∧ n = size before

/- Of two ways to cut a text the earlier one cuts off a part of what the later one does. -/
theorem cutLater {a b c d : Text} (same : a ++ b = c ++ d) (le : size a ≤ size c) :
    ∃ between, c = a ++ between ∧ b = between ++ d := by
  rcases List.append_eq_append_iff.1 same with ⟨e, hc, hb⟩ | ⟨e, ha, hd⟩
  · exact ⟨e, hc, hb⟩
  · have none : e = [] := sizeZero (by rw [ha, sizeAppend] at le; omega)
    subst none
    exact ⟨[], by simpa using ha.symm, by simpa using hd.symm⟩

theorem withinBreaks {t : Text} {s : Span} :
    t.Within s ↔ Break t s.start ∧ Break t s.stop ∧ s.start ≤ s.stop := by
  constructor
  · rintro ⟨before, inside, after, whole, start, stop⟩
    exact ⟨⟨before, inside ++ after, by simp [whole], start⟩,
      ⟨before ++ inside, after, whole, by simp [stop]⟩, by omega⟩
  · rintro ⟨⟨a, b, hab, ha⟩, ⟨c, d, hcd, hc⟩, le⟩
    obtain ⟨inside, hc', hb⟩ := cutLater (hab.symm.trans hcd) (by omega)
    exact ⟨a, inside, d, by rw [hcd, hc'], ha, by rw [hc, hc', sizeAppend]⟩

theorem withinBound {t : Text} {s : Span} (within : t.Within s) : s.start ≤ s.stop ∧ s.stop ≤ size t := by
  obtain ⟨before, inside, after, rfl, start, stop⟩ := within
  simp only [sizeAppend]
  omega

theorem sizeSlice {t : Text} {s : Span} (within : t.Within s) :
    size (t.slice s) = s.stop - s.start := by
  obtain ⟨before, inside, after, whole, start, stop⟩ := within
  rw [sliceWithin whole start stop]; omega

/- Neighbouring slices make up the slice over both. -/
theorem sliceJoin {t : Text} {a b c : Nat} (left : t.Within ⟨a, b⟩) (right : t.Within ⟨b, c⟩) :
    t.slice ⟨a, c⟩ = t.slice ⟨a, b⟩ ++ t.slice ⟨b, c⟩ := by
  obtain ⟨before, inside, after, whole, start, stop⟩ := left
  obtain ⟨before', inside', after', whole', start', stop'⟩ := right
  simp only at start stop start' stop'
  obtain ⟨none, same, rest⟩ := cutLater (whole.symm.trans (whole'.trans (List.append_assoc ..)))
    (by rw [sizeAppend]; omega)
  have empty : none = [] := sizeZero (by
    have := congrArg size same; simp only [sizeAppend] at this; omega)
  subst empty
  have joined : t = before ++ (inside ++ inside') ++ after' := by
    rw [whole, rest]; simp
  rw [sliceWithin (s := ⟨a, b⟩) whole start stop, sliceWithin (s := ⟨b, c⟩) whole' start' stop',
    sliceWithin (s := ⟨a, c⟩) joined start (by simp only [sizeAppend]; omega)]

/- What stands in the first of two texts stands in both together at the same place. -/
theorem withinFront {a : Text} {s : Span} (within : a.Within s) (b : Text) :
    (a ++ b).Within s ∧ (a ++ b).slice s = a.slice s := by
  obtain ⟨before, inside, after, whole, start, stop⟩ := within
  have all : a ++ b = before ++ inside ++ (after ++ b) := by rw [whole, List.append_assoc]
  exact ⟨⟨_, _, _, all, start, stop⟩,
    (sliceWithin all start stop).trans (sliceWithin whole start stop).symm⟩

/- What stands in the second of two texts stands in both together as much further on as the first is
long. -/
theorem withinBehind (a : Text) {b : Text} {s : Span} (within : b.Within s) :
    (a ++ b).Within (s.shift a.size) ∧ (a ++ b).slice (s.shift a.size) = b.slice s := by
  obtain ⟨before, inside, after, whole, start, stop⟩ := within
  have all : a ++ b = (a ++ before) ++ inside ++ after := by simp [whole]
  have start' : (s.shift a.size).start = size (a ++ before) := by
    rw [sizeAppend, Span.shift, start]; exact Nat.add_comm _ _
  have stop' : (s.shift a.size).stop = size (a ++ before) + size inside := by
    rw [sizeAppend, Span.shift, stop]; show _ + _ = _; omega
  exact ⟨⟨_, _, _, all, start', stop'⟩,
    (sliceWithin all start' stop').trans (sliceWithin whole start stop).symm⟩

/- A character that a text has behind so many bytes. -/
def Stands (t : Text) (n : Nat) (c : Char) : Prop := ∃ before after, t = before ++ c :: after ∧ n = size before

theorem standsBound {t : Text} {n : Nat} {c : Char} (stands : Stands t n c) : n < t.size := by
  obtain ⟨before, after, whole, place⟩ := stands
  have positive := charPositive c
  rw [whole, sizeAppend, sizeCons, place]
  omega

/- The characters of a slice are those that stand within its span. -/
theorem sliceStands {t : Text} {s : Span} (within : t.Within s) (c : Char) :
    c ∈ t.slice s ↔ ∃ n, s.Holds n ∧ Stands t n c := by
  obtain ⟨before, inside, after, whole, start, stop⟩ := within
  rw [sliceWithin whole start stop]
  constructor
  · intro member
    obtain ⟨front, back, parts⟩ := List.append_of_mem member
    have positive := charPositive c
    have sizes := congrArg size parts
    rw [sizeAppend, sizeCons] at sizes
    have all : t = (before ++ front) ++ c :: (back ++ after) := by simp [whole, parts]
    have place : s.Holds (size (before ++ front)) := by
      rw [sizeAppend, Span.Holds]
      omega
    exact ⟨_, place, _, _, all, rfl⟩
  · intro stands
    obtain ⟨n, place, front, back, parts, here⟩ := stands
    rw [Span.Holds] at place
    obtain ⟨read, ahead, behind⟩ := cutLater
      ((List.append_assoc before inside after).symm.trans (whole.symm.trans parts)) (by omega)
    have sizes := congrArg size ahead
    rw [sizeAppend] at sizes
    obtain ⟨left, cut, -⟩ := cutLater behind.symm (by omega)
    cases left with
    | nil =>
      rw [List.append_nil] at cut
      have whole := congrArg size cut
      omega
    | cons d left =>
      have same : c = d := by
        rw [cut, List.append_assoc] at behind
        exact (List.cons.inj (List.append_cancel_left behind)).1.symm
      rw [cut, same]
      exact List.mem_append_right read List.mem_cons_self

/- A span that covers the first byte of a character covers all of them. -/
theorem standsWhole {t : Text} {s : Span} (within : t.Within s) {n : Nat} {c : Char}
    (stands : Stands t n c) (holds : s.Holds n) : Span.Inside ⟨n, n + c.utf8Size⟩ s := by
  obtain ⟨-, ⟨front, back, parts, stop⟩, -⟩ := withinBreaks.1 within
  obtain ⟨before, after, whole, here⟩ := stands
  rw [Span.Holds] at holds
  obtain ⟨between, ahead, behind⟩ := cutLater (whole.symm.trans parts) (by omega)
  have sizes := congrArg size ahead
  rw [sizeAppend] at sizes
  cases between with
  | nil =>
    have none : size ([] : Text) = 0 := rfl
    omega
  | cons d between =>
    have same : c = d := (List.cons.inj behind).1
    rw [sizeCons, ← same] at sizes
    exact ⟨holds.1, by simp only; omega⟩

/- From a position on, spans that follow one another; what lies between them and what lies
inside each of them is as required. -/
inductive Laid (between inside : Text → Prop) : Nat → Text → List Span → Prop where
  | done {start rest} (last : between rest) : Laid between inside start rest []
  | span {start t s spans} (gap body rest : Text) (whole : t = gap ++ body ++ rest)
      (space : between gap) (filled : inside body) (starts : s.start = start + size gap)
      (stops : s.stop = s.start + size body) (tail : Laid between inside s.stop rest spans) :
      Laid between inside start t (s :: spans)

namespace Laid
variable {between inside between' inside' : Text → Prop}

theorem imp (weaker : ∀ u, between u → between' u) (weaker' : ∀ u, inside u → inside' u)
    {start t spans} (laid : Laid between inside start t spans) :
    Laid between' inside' start t spans := by
  induction laid with
  | done last => exact .done (weaker _ last)
  | span gap body rest whole space filled starts stops _ ih =>
    exact .span gap body rest whole (weaker _ space) (weaker' _ filled) starts stops ih

/- Each span lies within the text and holds what is required. -/
theorem member {before t : Text} {spans : List Span}
    (laid : Laid between inside (size before) t spans) {s : Span} (h : s ∈ spans) :
    (before ++ t).Within s ∧ inside ((before ++ t).slice s) := by
  generalize at_ : size before = start at laid
  induction laid generalizing before with
  | done => simp at h
  | @span start t s' spans gap body rest whole space filled starts stops tail ih =>
    subst at_
    have all : before ++ t = (before ++ gap) ++ body ++ rest := by simp [whole]
    rcases List.mem_cons.1 h with rfl | h
    · have start : s.start = size (before ++ gap) := by simp [starts]
      have stop : s.stop = size (before ++ gap) + size body := by omega
      exact ⟨⟨_, _, _, all, start, stop⟩, by rw [sliceWithin all start stop]; exact filled⟩
    · rw [all]
      exact ih h (by simp; omega)

theorem each {t : Text} {spans : List Span} (laid : Laid between inside 0 t spans) :
    ∀ s ∈ spans, t.Within s ∧ inside (t.slice s) := by
  have whole : Laid between inside (size []) t spans := laid
  intro s hs
  have placed := whole.member hs
  rwa [List.nil_append] at placed

theorem later {start t spans} (laid : Laid between inside start t spans) {s : Span}
    (h : s ∈ spans) : start ≤ s.start := by
  induction laid with
  | done => simp at h
  | span gap body rest whole space filled starts stops tail ih =>
    rcases List.mem_cons.1 h with rfl | h
    · omega
    · have := ih h; omega

theorem apart {start t spans} (laid : Laid between inside start t spans) :
    spans.Pairwise (fun a b => a.stop ≤ b.start) := by
  induction laid with
  | done => exact .nil
  | span gap body rest whole space filled starts stops tail ih =>
    exact List.pairwise_cons.2 ⟨fun b hb => tail.later hb, ih⟩

end Laid

/- Spans that are not empty are no more than the bytes there are. -/
theorem laidLength {between : Text → Prop} {start : Nat} {t : Text} {spans : List Span}
    (laid : Laid between (· ≠ []) start t spans) : spans.length ≤ size t := by
  induction laid with
  | done => exact Nat.zero_le _
  | span gap body rest whole space filled starts stops tail ih =>
    have positive : size body ≠ 0 := fun zero => filled (sizeZero zero)
    rw [whole, sizeAppend, sizeAppend, List.length_cons]
    omega

/- A slice of a blank text is blank. -/
theorem sliceBlank {t : Text} {s : Span} (within : t.Within s) (blank : Blank t) :
    Blank (t.slice s) := by
  obtain ⟨before, inside, after, rfl, start, stop⟩ := within
  rw [sliceWithin rfl start stop]
  exact (blankAppend.1 (blankAppend.1 blank).1).2

theorem laidEmpty {t : Text} {spans : List Span}
    (laid : Laid Blank (fun u => ¬ Blank u) 0 t spans) (blank : Blank t) : spans = [] := by
  refine List.eq_nil_iff_forall_not_mem.2 fun s hs => ?_
  obtain ⟨within, visible⟩ := laid.each s hs
  exact visible (sliceBlank within blank)

section Changes
variable {between : Text → Prop} {whole t : Text} {start : Nat} {spans : List Span}

/- What stands in a text from a position to its end. -/
def Ahead (whole : Text) (start : Nat) (t : Text) : Prop :=
  ∃ before, whole = before ++ t ∧ start = size before

/- A change of the later spans leaves the earlier ones as they are. -/
theorem laidOnward {inside : Text → Prop} {spans' : List Span} (front : List Span)
    (ahead : Ahead whole start t)
    (change : ∀ start t, Ahead whole start t → Laid between inside start t spans →
      Laid between inside start t spans')
    (laid : Laid between inside start t (front ++ spans)) :
    Laid between inside start t (front ++ spans') := by
  induction front generalizing start t with
  | nil => exact change start t ahead laid
  | cons s front ih =>
    obtain ⟨before, same, reached⟩ := ahead
    cases laid with
    | span gap body rest cut space filled starts stops tail =>
      refine .span gap body rest cut space filled starts stops (ih ⟨before ++ gap ++ body, ?_, ?_⟩ tail)
      · simp [same, cut]
      · simp only [sizeAppend]; omega

/- Two neighbours and what lies between them are one span. -/
theorem laidJoin {a b : Span} (laid : Laid between (· ≠ []) start t (a :: b :: spans)) :
    Laid between (· ≠ []) start t (⟨a.start, b.stop⟩ :: spans) := by
  cases laid with
  | span gap body rest cut space filled starts stops tail =>
    cases tail with
    | span gap' body' rest' cut' space' filled' starts' stops' tail' =>
      refine .span gap (body ++ gap' ++ body') rest' (by simp [cut, cut']) space
        (by simp [filled]) starts ?_ tail'
      simp only [sizeAppend]; omega

end Changes

/- Spans within a text that stand apart are laid out over it. -/
theorem laidApart {inside : Text → Prop} {t : Text} {spans : List Span}
    (each : ∀ s ∈ spans, t.Within s ∧ inside (t.slice s))
    (apart : spans.Pairwise (fun a b => a.stop ≤ b.start)) :
    Laid (fun _ => True) inside 0 t spans := by
  have general : ∀ (spans : List Span) (before rest : Text), t = before ++ rest →
      (∀ s ∈ spans, t.Within s ∧ inside (t.slice s) ∧ size before ≤ s.start) →
      spans.Pairwise (fun a b => a.stop ≤ b.start) →
      Laid (fun _ => True) inside (size before) rest spans := by
    intro spans
    induction spans with
    | nil => intro before rest _ _ _; exact .done trivial
    | cons s spans ih =>
      intro before rest whole each apart
      have tail := List.pairwise_cons.1 apart
      obtain ⟨⟨front, body, after, cut, start, stop⟩, filled, late⟩ := each s List.mem_cons_self
      obtain ⟨gap, hf, hr⟩ := cutLater (whole.symm.trans (cut.trans (List.append_assoc ..)))
        (by omega)
      rw [sliceWithin cut start stop] at filled
      have reached : size (front ++ body) = s.stop := by simp [stop]
      refine .span gap body after (by simpa using hr) trivial filled (by simp [start, hf]) (by omega) ?_
      rw [← reached]
      exact ih _ _ cut (fun b hb => ⟨(each b (List.mem_cons_of_mem _ hb)).1,
        (each b (List.mem_cons_of_mem _ hb)).2.1, by have := tail.1 b hb; omega⟩) tail.2
  exact general spans [] t rfl (fun s hs => ⟨(each s hs).1, (each s hs).2, Nat.zero_le _⟩) apart

end Intake.Text
