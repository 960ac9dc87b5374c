import Intake.Proofs.Safety.Pieces
import Intake.Proofs.Segment.Coverage

/-! What spans leave over. Whatever spans a text has and in whatever order, no piece reaches into a span,
each has something visible, and everything visible that no span covers stands in one of them. What the
spans are merged into goes by what they cover together: where each span of two lists is part of one of the
other list, the separators are the same, and so are the pieces. -/
namespace Intake.Boundary
open Text (Stands sliceStands standsWhole withinBound)
open Unicode (isBlank)

section Same
variable {spans others : List Span}

/- Spans that run forward, each of them part of another one. -/
def Under (spans others : List Span) : Prop :=
  ∀ s ∈ spans, s.start ≤ s.stop ∧ ∃ r ∈ others, s.Inside r

theorem separatorsUnder (under : Under spans others) :
    ∀ m ∈ separators spans, m.start ≤ m.stop ∧ ∃ w ∈ separators others, m.Inside w := by
  apply separatorsWider
  intro s hs
  obtain ⟨forward, r, hr, inner⟩ := under s hs
  obtain ⟨w, hw, outer⟩ := separatorsCover r hr
  exact ⟨forward, w, hw, Span.insideTrans inner outer⟩

/- A separator lies in one of the others, and that one in a separator that can only be the first. -/
theorem separatorsKept (under : Under spans others) (back : Under others spans) :
    ∀ m ∈ separators spans, m ∈ separators others := by
  intro m hm
  obtain ⟨forward, w, hw, inner⟩ := separatorsUnder under m hm
  obtain ⟨-, v, hv, outer⟩ := separatorsUnder back w hw
  have inside := Span.insideTrans inner outer
  have same : m = v := by
    simp only [Span.Inside] at inside
    rcases eitherFirst (separatorsApart spans) hm hv with same | apart | apart
    · exact same
    · omega
    · omega
  rw [← same] at outer
  rw [Span.insideBoth inner outer]
  exact hw

theorem separatorsDistinct (under : Under spans others) : (separators spans).Nodup := by
  apply (separatorsApart spans).imp_of_mem
  intro a b ha _ apart same
  have forward := (separatorsUnder under a ha).1
  rw [← same] at apart
  omega

theorem separatorsSame (under : Under spans others) (back : Under others spans) :
    separators spans = separators others := by
  have members : (separators spans).Perm (separators others) :=
    (List.perm_ext_iff_of_nodup (separatorsDistinct under) (separatorsDistinct back)).mpr
      fun m => ⟨separatorsKept under back m, separatorsKept back under m⟩
  have never : ∀ a b, a ∈ separators spans → b ∈ separators others → a.stop < b.start →
      b.stop < a.start → a = b := by
    intro a b ha hb first second
    have forwardA := (separatorsUnder under a ha).1
    have forwardB := (separatorsUnder back b hb).1
    omega
  exact members.eq_of_pairwise never (separatorsApart spans) (separatorsApart others)

/- The pieces do not go by spans that are part of others, nor by the order. -/
theorem piecesAmong (t : Text) (kept : ∀ s ∈ spans, s ∈ others) (under : Under others spans) :
    pieces t others = pieces t spans := by
  have back : Under spans others := by
    intro s hs
    exact ⟨(under s (kept s hs)).1, s, kept s hs, s.insideSelf⟩
  rw [piecesFilter, piecesFilter, stretches, stretches, separatorsSame under back]

end Same

/- Parts of a text that spans leave over: in order, each with something visible, none of them cut by a
span, be it empty, and together all that is visible where no span is. -/
structure Complement (t : Text) (spans ps : List Span) : Prop where
  ordered : ps.Pairwise (fun a b => a.start < b.start ∧ a.stop ≤ b.start)
  filled : ∀ p ∈ ps, t.Within p ∧ p.start < p.stop ∧ ∃ c ∈ t.slice p, isBlank c = false
  apart : ∀ p ∈ ps, ∀ s ∈ spans, ∀ n, p.Holds n → ¬ s.Holds n
  uncut : ∀ p ∈ ps, ∀ s ∈ spans, ¬ (p.start < s.start ∧ s.stop < p.stop)
  covered : ∀ n c, Stands t n c → isBlank c = false → (∀ s ∈ spans, ¬ s.Holds n) →
    ∃ p ∈ ps, Span.Inside ⟨n, n + c.utf8Size⟩ p ∧ ∀ q ∈ ps, q.Holds n → q = p

section Pieces
variable {t : Text} {spans : List Span} (within : ∀ s ∈ spans, t.Within s)
include within

theorem pieceFilled {p : Span} (hp : p ∈ pieces t spans) :
    t.Within p ∧ p.start < p.stop ∧ ∃ c ∈ t.slice p, isBlank c = false := by
  obtain ⟨hg, n, c, holds, stands, visible⟩ := (piecesShown within).mp hp
  have inText := stretchesWithin within p hg
  have some : p.start < p.stop := Nat.lt_of_le_of_lt holds.1 holds.2
  exact ⟨inText, some, c, (sliceStands inText c).mpr ⟨n, holds, stands⟩, visible⟩

theorem pieceBeside {p s : Span} (hp : p ∈ pieces t spans) (hs : s ∈ spans) :
    s.stop ≤ p.start ∨ p.stop ≤ s.start := by
  obtain ⟨m, hm, low, high⟩ := separatorsCover s hs
  obtain ⟨hg, -⟩ := (piecesShown within).mp hp
  have apart := gapsOutside (separatorsForward within) (separatorsApart spans) p hg m hm
  omega

/- What no span covers no separator does; so a visible character there is in one piece, with all its
bytes. -/
theorem pieceOutside {n : Nat} {c : Char} (stands : Stands t n c) (visible : isBlank c = false)
    (outside : ∀ s ∈ spans, ¬ s.Holds n) :
    ∃ p ∈ pieces t spans, Span.Inside ⟨n, n + c.utf8Size⟩ p ∧ ∀ q ∈ pieces t spans, q.Holds n → q = p := by
  have clear : ∀ m ∈ separators spans, m.stop ≤ n ∨ n + 1 ≤ m.start := by
    intro m hm
    have free : ¬ m.Holds n := by
      intro holds
      obtain ⟨s, hs, here⟩ := separatorsHeld m hm holds
      exact outside s hs here
    simp only [Span.Holds] at free
    omega
  obtain ⟨p, hp, holds⟩ := pieceAround within stands visible clear
  have whole := standsWhole (pieceFilled within hp).1 stands holds
  exact ⟨p, hp, whole, fun q hq here => pieceOnce within hq hp here holds⟩

theorem complemented : Complement t spans (pieces t spans) where
  ordered := by
    apply (piecesApart within).imp_of_mem
    intro a b ha _ apart
    obtain ⟨-, some, -⟩ := pieceFilled within ha
    exact ⟨Nat.lt_of_lt_of_le some apart, apart⟩
  filled := fun p hp => pieceFilled within hp
  apart := by
    intro p hp s hs n inPiece inSpan
    simp only [Span.Holds] at inPiece inSpan
    have beside := pieceBeside within hp hs
    omega
  uncut := by
    intro p hp s hs cut
    have forward := (withinBound (within s hs)).1
    have beside := pieceBeside within hp hs
    omega
  covered := fun n c stands visible outside => pieceOutside within stands visible outside

theorem underSelf : Under spans spans :=
  fun s hs => ⟨(withinBound (within s hs)).1, s, hs, s.insideSelf⟩

theorem piecesAdded {r s : Span} (hr : r ∈ spans) (forward : s.start ≤ s.stop) (inside : s.Inside r)
    {others : List Span} (same : others.Perm (s :: spans)) : pieces t others = pieces t spans := by
  apply piecesAmong t
  · exact fun q hq => same.mem_iff.mpr (List.mem_cons_of_mem s hq)
  · intro q hq
    rcases List.mem_cons.mp (same.mem_iff.mp hq) with rfl | there
    · exact ⟨forward, r, hr, inside⟩
    · exact underSelf within q there

/- Whatever spans a text has, its pieces are what they leave over; and it is the same whichever order they
come in, and with one more that is there already or is part of one that is. -/
theorem piecesComplement :
    (t.size ≤ Text.longest → checkedPieces t spans = .ok (pieces t spans)) ∧
    Complement t spans (pieces t spans) ∧
    (∀ others, others.Perm spans → pieces t others = pieces t spans) ∧
    (∀ s ∈ spans, ∀ others, others.Perm (s :: spans) → pieces t others = pieces t spans) ∧
    (∀ r ∈ spans, ∀ s : Span, s.start ≤ s.stop → s.Inside r →
      ∀ others, others.Perm (s :: spans) → pieces t others = pieces t spans) := by
  constructor
  · exact fun held => piecesSafe held within
  constructor
  · exact complemented within
  constructor
  · intro others same
    exact piecesAmong t (fun s hs => same.mem_iff.mpr hs)
      (fun s hs => underSelf within s (same.mem_iff.mp hs))
  constructor
  · intro s hs others same
    exact piecesAdded within hs (withinBound (within s hs)).1 s.insideSelf same
  · intro r hr s forward inside others same
    exact piecesAdded within hr forward inside same

end Pieces

/- Empty spans in a word, in front of one and behind another span; nested, repeated and overlapping ones,
of which the last cover what is visible up to the end. -/
theorem mixedSpansComplemented :
    let t : Text := "ab  cé  d  e".toList
    let spans : List Span := [⟨1, 1⟩, ⟨2, 4⟩, ⟨3, 4⟩, ⟨4, 4⟩, ⟨9, 9⟩, ⟨10, 12⟩, ⟨11, 13⟩]
    (∀ s ∈ spans, t.Within s) ∧ t.size ≤ Text.longest ∧
    checkedPieces t spans = .ok [⟨0, 1⟩, ⟨1, 2⟩, ⟨4, 9⟩, ⟨9, 10⟩] ∧
    Complement t spans (pieces t spans) ∧
    spans.reverse.Perm spans ∧ pieces t spans.reverse = pieces t spans ∧
    (⟨2, 4⟩ : Span) ∈ spans ∧ pieces t (⟨2, 4⟩ :: spans) = pieces t spans ∧
    Span.Inside ⟨11, 12⟩ ⟨10, 12⟩ ∧ pieces t (⟨11, 12⟩ :: spans) = pieces t spans := by
  intro t spans
  have within : ∀ s ∈ spans, t.Within s := by decide
  have held : t.size ≤ Text.longest := by decide
  have sorted : spans.mergeSort Span.ordered = spans := List.mergeSort_of_pairwise (by decide)
  have four : pieces t spans = [⟨0, 1⟩, ⟨1, 2⟩, ⟨4, 9⟩, ⟨9, 10⟩] := by
    rw [piecesFilter, stretches, separators, sorted]
    decide +kernel
  have turned : spans.reverse.Perm spans := List.reverse_perm spans
  have there : (⟨2, 4⟩ : Span) ∈ spans := by decide
  have wide : (⟨10, 12⟩ : Span) ∈ spans := by decide
  have inside : Span.Inside ⟨11, 12⟩ ⟨10, 12⟩ := ⟨by decide, by decide⟩
  obtain ⟨returned, left, order, again, part⟩ := piecesComplement within
  exact ⟨within, held, (returned held).trans (congrArg _ four), left, turned, order _ turned,
    there, again _ there _ (.refl _), inside, part _ wide _ (by decide) inside _ (.refl _)⟩

end Intake.Boundary
