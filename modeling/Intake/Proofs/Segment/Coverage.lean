import Intake.Proofs.Segment.Separation

/-! What separators and pieces cover. Every span lies in one of the separators that spans are merged
into, which begin and end where some of the spans do; so separators of more spans are wider, and the
pieces between them lie in the pieces that there were. A visible character is in the one piece that
covers its place. -/
namespace Intake.Boundary
open Text (Blank Laid Stands sliceStands standsBound)
open Unicode (isBlank)

section Pairs
variable {α : Type} {R : α → α → Prop} {xs : List α}

/- Of two members of an ordered list one comes first, or they are one. -/
theorem eitherFirst (ordered : xs.Pairwise R) {a b : α} (ha : a ∈ xs) (hb : b ∈ xs) :
    a = b ∨ R a b ∨ R b a := by
  induction xs with
  | nil => simp at ha
  | cons x xs ih =>
    obtain ⟨first, others⟩ := List.pairwise_cons.mp ordered
    rcases List.mem_cons.mp ha with rfl | inA
    · rcases List.mem_cons.mp hb with rfl | inB
      · exact .inl rfl
      · exact .inr (.inl (first b inB))
    · rcases List.mem_cons.mp hb with rfl | inB
      · exact .inr (.inr (first a inA))
      · exact ih others inA inB

end Pairs

section Merging
variable {spans : List Span}

theorem mergeAfterCovers {last : Span}
    (sorted : (last :: spans).Pairwise (fun a b => a.start ≤ b.start)) :
    ∀ s ∈ last :: spans, ∃ m ∈ mergeAfter last spans, s.Inside m := by
  induction spans generalizing last with
  | nil =>
    intro s hs
    rcases List.mem_singleton.mp hs with rfl
    exact ⟨s, List.mem_singleton_self s, s.insideSelf⟩
  | cons b rest ih =>
    obtain ⟨first, others⟩ := List.pairwise_cons.mp sorted
    have order := first b List.mem_cons_self
    intro s hs
    unfold mergeAfter
    split
    · have joined : (⟨last.start, max last.stop b.stop⟩ :: rest : List Span).Pairwise
          (fun a b => a.start ≤ b.start) := List.pairwise_cons.mpr
        ⟨fun r hr => first r (List.mem_cons_of_mem b hr), (List.pairwise_cons.mp others).2⟩
      have wide := ih joined
      have both : ∀ r : Span, r.Inside ⟨last.start, max last.stop b.stop⟩ →
          ∃ m ∈ mergeAfter ⟨last.start, max last.stop b.stop⟩ rest, r.Inside m := by
        intro r inside
        obtain ⟨m, hm, around⟩ := wide _ List.mem_cons_self
        exact ⟨m, hm, Span.insideTrans inside around⟩
      rcases List.mem_cons.mp hs with rfl | later
      · exact both s ⟨Nat.le_refl _, Nat.le_max_left _ _⟩
      · rcases List.mem_cons.mp later with rfl | later
        · exact both s ⟨order, Nat.le_max_right _ _⟩
        · exact wide s (List.mem_cons_of_mem _ later)
    · rcases List.mem_cons.mp hs with rfl | later
      · exact ⟨s, List.mem_cons_self, s.insideSelf⟩
      · obtain ⟨m, hm, inside⟩ := ih others s later
        exact ⟨m, List.mem_cons_of_mem _ hm, inside⟩

/- Every span is part of a separator. -/
theorem separatorsCover : ∀ s ∈ spans, ∃ m ∈ separators spans, s.Inside m := by
  have sorted := sortedByStart spans
  have kept : ∀ s ∈ spans, s ∈ spans.mergeSort Span.ordered := fun s hs => List.mem_mergeSort.mpr hs
  unfold separators
  generalize spans.mergeSort Span.ordered = ordered at sorted kept
  cases ordered with
  | nil => exact fun s hs => absurd (kept s hs) List.not_mem_nil
  | cons s rest => exact fun r hr => mergeAfterCovers sorted r (kept r hr)

/- A separator begins where some span begins, and ends where some span ends. -/
theorem separatorsEnds : ∀ m ∈ separators spans,
    (∃ s ∈ spans, s.start = m.start) ∧ ∃ s ∈ spans, s.stop = m.stop := by
  apply separatorsEach
  · intro a b endsA endsB order touches
    constructor
    · exact endsA.1
    · rcases Nat.le_total a.stop b.stop with later | earlier
      · rw [Nat.max_eq_right later]; exact endsB.2
      · rw [Nat.max_eq_left earlier]; exact endsA.2
  · exact fun s hs => ⟨⟨s, hs, rfl⟩, s, hs, rfl⟩

/- A place that a separator covers is covered by some span. -/
theorem separatorsHeld {n : Nat} : ∀ m ∈ separators spans, m.Holds n → ∃ s ∈ spans, s.Holds n := by
  apply separatorsEach
  · intro a b heldA heldB order touches holds
    simp only [Span.Holds] at holds
    by_cases before : n < a.stop
    · exact heldA ⟨holds.1, before⟩
    · have behind : b.Holds n := by
        simp only [Span.Holds]
        omega
      exact heldB behind
  · exact fun s hs holds => ⟨s, hs, holds⟩

/- Where each of some spans lies in a separator of others, the separators they are merged into do. -/
theorem separatorsWider {more : List Span}
    (covered : ∀ s ∈ spans, s.start ≤ s.stop ∧ ∃ w ∈ separators more, s.Inside w) :
    ∀ m ∈ separators spans, m.start ≤ m.stop ∧ ∃ w ∈ separators more, m.Inside w := by
  apply separatorsEach _ covered
  intro a b wideA wideB order touches
  obtain ⟨properA, v, hv, insideA⟩ := wideA
  obtain ⟨properB, w, hw, insideB⟩ := wideB
  have same : v = w := by
    simp only [Span.Inside] at insideA insideB
    rcases eitherFirst (separatorsApart more) hv hw with same | apart | apart
    · exact same
    · omega
    · omega
  rw [← same] at insideB
  simp only [Span.Inside] at insideA insideB ⊢
  exact ⟨by omega, v, hv, by omega, by omega⟩

end Merging

section Gaps
variable {start stop : Nat} {seps : List Span}

/- A gap begins where the text does or a separator ends. -/
theorem gapsBegin : ∀ g ∈ gaps start stop seps, g.start = start ∨ ∃ m ∈ seps, g.start = m.stop := by
  induction seps generalizing start with
  | nil =>
    intro g hg
    rcases List.mem_singleton.mp hg with rfl
    exact .inl rfl
  | cons m rest ih =>
    intro g hg
    rcases List.mem_cons.mp hg with rfl | later
    · exact .inl rfl
    · rcases ih g later with here | ⟨w, hw, there⟩
      · exact .inr ⟨m, List.mem_cons_self, here⟩
      · exact .inr ⟨w, List.mem_cons_of_mem m hw, there⟩

/- Behind a separator there is a gap, up to the next one or the end of the text. -/
theorem gapsBehind (apart : seps.Pairwise (fun a b => a.stop < b.start)) : ∀ m ∈ seps,
    ∃ g ∈ gaps start stop seps, g.start = m.stop ∧ (g.stop = stop ∨ m.stop < g.stop) := by
  induction seps generalizing start with
  | nil => exact fun m hm => absurd hm List.not_mem_nil
  | cons s rest ih =>
    obtain ⟨first, others⟩ := List.pairwise_cons.mp apart
    intro m hm
    rcases List.mem_cons.mp hm with rfl | later
    · cases rest with
      | nil => exact ⟨⟨m.stop, stop⟩, by simp [gaps], rfl, .inl rfl⟩
      | cons r rest =>
        exact ⟨⟨m.stop, r.start⟩, by simp [gaps], rfl, .inr (first r List.mem_cons_self)⟩
    · obtain ⟨g, hg, ends⟩ := @ih s.stop others m later
      exact ⟨g, List.mem_cons_of_mem _ hg, ends⟩

/- No separator reaches into a gap. -/
theorem gapsOutside (proper : ∀ m ∈ seps, m.start ≤ m.stop)
    (apart : seps.Pairwise (fun a b => a.stop < b.start)) :
    ∀ g ∈ gaps start stop seps, ∀ m ∈ seps, m.stop ≤ g.start ∨ g.stop ≤ m.start := by
  induction seps generalizing start with
  | nil => exact fun g _ m hm => absurd hm List.not_mem_nil
  | cons s rest ih =>
    obtain ⟨first, others⟩ := List.pairwise_cons.mp apart
    have ordered := proper s List.mem_cons_self
    have later := @ih s.stop (fun m hm => proper m (List.mem_cons_of_mem s hm)) others
    intro g hg m hm
    rcases List.mem_cons.mp hg with rfl | behind
    · rcases List.mem_cons.mp hm with rfl | further
      · exact .inr (Nat.le_refl _)
      · have beyond := first m further
        exact .inr (Nat.le_trans ordered (Nat.le_of_lt beyond))
    · rcases List.mem_cons.mp hm with rfl | further
      · rcases gapsBegin g behind with here | ⟨w, hw, there⟩
        · exact .inl (Nat.le_of_eq here.symm)
        · have beyond := first w hw
          have properW := proper w (List.mem_cons_of_mem m hw)
          exact .inl (by omega)
      · exact later g behind m further

/- The gaps follow one another. -/
theorem gapsApart (proper : ∀ m ∈ seps, m.start ≤ m.stop)
    (apart : seps.Pairwise (fun a b => a.stop < b.start)) :
    (gaps start stop seps).Pairwise (fun a b => a.stop ≤ b.start) := by
  induction seps generalizing start with
  | nil => exact List.pairwise_singleton _ _
  | cons m rest ih =>
    obtain ⟨first, others⟩ := List.pairwise_cons.mp apart
    have properRest : ∀ w ∈ rest, w.start ≤ w.stop := fun w hw => proper w (List.mem_cons_of_mem m hw)
    have order := proper m List.mem_cons_self
    have behind : ∀ g ∈ gaps m.stop stop rest, m.start ≤ g.start := by
      intro g hg
      rcases gapsBegin g hg with here | ⟨w, hw, there⟩
      · omega
      · have beyond := first w hw
        have orderW := properRest w hw
        omega
    exact List.pairwise_cons.mpr ⟨behind, ih properRest others⟩

/- What no separator reaches into lies in a gap. -/
theorem gapsAround {p q : Nat} (low : start ≤ p) (high : q ≤ stop)
    (outside : ∀ m ∈ seps, m.stop ≤ p ∨ q ≤ m.start) :
    ∃ g ∈ gaps start stop seps, Span.Inside ⟨p, q⟩ g := by
  induction seps generalizing start with
  | nil => exact ⟨⟨start, stop⟩, List.mem_singleton_self _, low, high⟩
  | cons m rest ih =>
    rcases outside m List.mem_cons_self with before | behind
    · obtain ⟨g, hg, inside⟩ := ih before fun w hw => outside w (List.mem_cons_of_mem m hw)
      exact ⟨g, List.mem_cons_of_mem _ hg, inside⟩
    · exact ⟨⟨start, m.start⟩, List.mem_cons_self, low, behind⟩

end Gaps

/- Spans over whatever the text has. -/
section Pieces
variable {t : Text} {spans : List Span} (within : ∀ s ∈ spans, t.Within s)
include within

theorem separatorsForward : ∀ m ∈ separators spans, m.start ≤ m.stop :=
  fun m hm => (Text.withinBound (separatorsWithin within m hm)).1

/- The pieces are the gaps in which a visible character stands. -/
theorem piecesShown {p : Span} : p ∈ pieces t spans ↔ p ∈ gaps 0 t.size (separators spans) ∧
    ∃ n c, p.Holds n ∧ Stands t n c ∧ isBlank c = false := by
  rw [piecesFilter, List.mem_filter, decide_eq_true_eq]
  apply and_congr_right
  intro hg
  have inText := stretchesWithin within p hg
  constructor
  · intro visible
    have some : ∃ c ∈ t.slice p, ¬ isBlank c = true := by
      simpa [Blank] using visible
    obtain ⟨c, member, shown⟩ := some
    obtain ⟨n, holds, stands⟩ := (sliceStands inText c).mp member
    exact ⟨n, c, holds, stands, by simpa using shown⟩
  · intro shown unseen
    obtain ⟨n, c, holds, stands, visible⟩ := shown
    have here := unseen c ((sliceStands inText c).mpr ⟨n, holds, stands⟩)
    rw [visible] at here
    cases here

theorem piecesApart : (pieces t spans).Pairwise (fun a b => a.stop ≤ b.start) := by
  rw [piecesFilter]
  exact (gapsApart (separatorsForward within) (separatorsApart spans)).sublist List.filter_sublist

/- No two pieces cover one place. -/
theorem pieceOnce {p q : Span} (hp : p ∈ pieces t spans) (hq : q ∈ pieces t spans) {n : Nat}
    (inP : p.Holds n) (inQ : q.Holds n) : p = q := by
  simp only [Span.Holds] at inP inQ
  rcases eitherFirst (piecesApart within) hp hq with same | apart | apart
  · exact same
  · omega
  · omega

/- A visible character that no separator covers stands in a piece. -/
theorem pieceAround {n : Nat} {c : Char} (stands : Stands t n c) (visible : isBlank c = false)
    (outside : ∀ m ∈ separators spans, m.stop ≤ n ∨ n + 1 ≤ m.start) :
    ∃ p ∈ pieces t spans, p.Holds n := by
  obtain ⟨g, hg, low, high⟩ := gapsAround (Nat.zero_le n) (standsBound stands) outside
  exact ⟨g, (piecesShown within).mpr ⟨hg, n, c, ⟨low, high⟩, stands, visible⟩, low, high⟩

end Pieces

/- Spans over blanks, which cover no visible character. -/
section Blanks
variable {t : Text} {spans : List Span} (blank : ∀ s ∈ spans, t.Within s ∧ Blank (t.slice s))
include blank

theorem blankWithin : ∀ s ∈ spans, t.Within s := fun s hs => (blank s hs).1

theorem separatorBlank {m : Span} (hm : m ∈ separators spans) : t.Within m ∧ Blank (t.slice m) :=
  (separatorsBlank blank).each m hm

theorem separatorProper {m : Span} (hm : m ∈ separators spans) : m.start ≤ m.stop :=
  separatorsForward (blankWithin blank) m hm

/- No visible character stands in a separator. -/
theorem separatorUnseen {m : Span} (hm : m ∈ separators spans) {n : Nat} {c : Char}
    (stands : Stands t n c) (visible : isBlank c = false) : m.stop ≤ n ∨ n + 1 ≤ m.start := by
  have inside := separatorBlank blank hm
  have unseen : ¬ m.Holds n := by
    intro holds
    have here := inside.2 c ((sliceStands inside.1 c).mpr ⟨n, holds, stands⟩)
    rw [visible] at here
    cases here
  simp only [Span.Holds] at unseen
  omega

theorem piecesIff {p : Span} : p ∈ pieces t spans ↔ p ∈ gaps 0 t.size (separators spans) ∧
    ∃ n c, p.Holds n ∧ Stands t n c ∧ isBlank c = false := piecesShown (blankWithin blank)

/- A visible character stands in a piece. -/
theorem pieceHolds {n : Nat} {c : Char} (stands : Stands t n c) (visible : isBlank c = false) :
    ∃ p ∈ pieces t spans, p.Holds n :=
  pieceAround (blankWithin blank) stands visible fun _ hm => separatorUnseen blank hm stands visible

theorem pieceUnique {p q : Span} (hp : p ∈ pieces t spans) (hq : q ∈ pieces t spans) {n : Nat}
    (inP : p.Holds n) (inQ : q.Holds n) : p = q := pieceOnce (blankWithin blank) hp hq inP inQ

/- Where a visible character follows a span, a piece begins. -/
theorem pieceBehind {s : Span} (hs : s ∈ spans) {c : Char} (stands : Stands t s.stop c)
    (visible : isBlank c = false) : ∃ p ∈ pieces t spans, p.start = s.stop := by
  obtain ⟨m, hm, low, high⟩ := separatorsCover s hs
  have proper := (Text.withinBound (blank s hs).1).1
  have ends : m.stop = s.stop := by
    have unseen := separatorUnseen blank hm stands visible
    omega
  obtain ⟨g, hg, begins, further⟩ := @gapsBehind 0 t.size _ (separatorsApart spans) m hm
  have bound := standsBound stands
  have holds : g.Holds s.stop := by
    simp only [Span.Holds]
    omega
  exact ⟨g, (piecesIff blank).mpr ⟨hg, _, c, holds, stands, visible⟩, begins.trans ends⟩

end Blanks

/- Further spans, which cut the pieces that there are. -/
section Finer
variable {t : Text} {spans more : List Span}
  (blank : ∀ s ∈ spans, t.Within s ∧ Blank (t.slice s))
  (blankMore : ∀ s ∈ more, t.Within s ∧ Blank (t.slice s))
include blank blankMore

theorem blankBoth : ∀ s ∈ spans ++ more, t.Within s ∧ Blank (t.slice s) := by
  intro s hs
  rcases List.mem_append.mp hs with left | right
  · exact blank s left
  · exact blankMore s right

theorem finerInside : ∀ p ∈ pieces t (spans ++ more), ∃ q ∈ pieces t spans, p.Inside q := by
  have both := blankBoth blank blankMore
  intro p hp
  obtain ⟨hg, n, c, holds, stands, visible⟩ := (piecesIff both).mp hp
  have wider : ∀ m ∈ separators spans, m.start ≤ m.stop ∧ ∃ w ∈ separators (spans ++ more), m.Inside w :=
    separatorsWider fun s hs =>
      ⟨(Text.withinBound (blank s hs).1).1, separatorsCover s (List.mem_append_left more hs)⟩
  have outside : ∀ m ∈ separators spans, m.stop ≤ p.start ∨ p.stop ≤ m.start := by
    intro m hm
    obtain ⟨-, w, hw, low, high⟩ := wider m hm
    have apart := gapsOutside (fun w hw => separatorProper both hw) (separatorsApart (spans ++ more))
      p hg w hw
    omega
  have bound : p.stop ≤ t.size := (Text.withinBound ((piecesLaid both).each p hp).1).2
  obtain ⟨q, hq, inside⟩ := gapsAround (Nat.zero_le p.start) bound outside
  exact ⟨q, (piecesIff blank).mpr ⟨hq, n, c, Span.insideHolds inside holds, stands, visible⟩, inside⟩

/- Where a piece does not begin like one that there was, one of the further spans ends. -/
theorem finerBegins : ∀ p ∈ pieces t (spans ++ more),
    (∃ q ∈ pieces t spans, q.start = p.start) ∨ ∃ s ∈ more, s.stop = p.start := by
  have both := blankBoth blank blankMore
  intro p hp
  obtain ⟨hg, n, c, holds, -, -⟩ := (piecesIff both).mp hp
  obtain ⟨q, hq, low, high⟩ := finerInside blank blankMore p hp
  have first : p.start = 0 → q.start = p.start := by omega
  rcases gapsBegin p hg with zero | ⟨m, hm, begins⟩
  · exact .inl ⟨q, hq, first zero⟩
  · obtain ⟨-, s, hs, ends⟩ := separatorsEnds m hm
    rcases List.mem_append.mp hs with left | right
    · obtain ⟨w, hw, lower, higher⟩ := separatorsCover s left
      have proper := (Text.withinBound (blank s left).1).1
      have apart := gapsOutside (fun w hw => separatorProper blank hw) (separatorsApart spans) q
        ((piecesIff blank).mp hq).1 w hw
      simp only [Span.Holds] at holds
      exact .inl ⟨q, hq, by omega⟩
    · exact .inr ⟨s, right, ends.trans begins.symm⟩

end Finer

end Intake.Boundary
