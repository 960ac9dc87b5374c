import Intake.Proofs.Pattern.Reach
import Intake.Proofs.Text.Layout
import Intake.Segment.Boundary

/-! Separators and pieces. Merging keeps what touching spans have in common and leaves spans
that stand apart; where every separator is blank, the pieces are laid out over the text with
nothing but blanks between them. The separators of paragraphs and of markers are blank. -/
namespace Intake.Boundary
open Pattern (Found Matcher)
open Text (Blank Laid)

section Merging
variable {P : Span → Prop}
  (joins : ∀ a b, P a → P b → a.start ≤ b.start → b.start ≤ a.stop →
    P ⟨a.start, max a.stop b.stop⟩)

include joins in
theorem mergeAfterEach {last : Span} {spans : List Span}
    (sorted : (last :: spans).Pairwise (fun a b => a.start ≤ b.start))
    (each : ∀ s ∈ last :: spans, P s) : ∀ s ∈ mergeAfter last spans, P s := by
  induction spans generalizing last with
  | nil => simpa [mergeAfter] using each
  | cons b rest ih =>
    have all := List.pairwise_cons.1 sorted
    have others := List.pairwise_cons.1 all.2
    unfold mergeAfter
    split
    · rename_i touches
      refine ih (List.pairwise_cons.2 ⟨fun s hs => all.1 s (List.mem_cons_of_mem _ hs), others.2⟩) ?_
      intro s hs
      rcases List.mem_cons.1 hs with rfl | hs
      · exact joins last b (each _ List.mem_cons_self) (each _ (by simp))
          (all.1 b List.mem_cons_self) touches
      · exact each s (by simp [hs])
    · intro s hs
      rcases List.mem_cons.1 hs with rfl | hs
      · exact each _ List.mem_cons_self
      · exact ih all.2 (fun s hs => each s (List.mem_cons_of_mem _ hs)) s hs

theorem mergeAfterLater {last : Span} {spans : List Span}
    (sorted : (last :: spans).Pairwise (fun a b => a.start ≤ b.start)) :
    ∀ s ∈ mergeAfter last spans, last.start ≤ s.start := by
  induction spans generalizing last with
  | nil => simp [mergeAfter]
  | cons b rest ih =>
    have all := List.pairwise_cons.1 sorted
    have others := List.pairwise_cons.1 all.2
    unfold mergeAfter
    split
    · have joined : (⟨last.start, max last.stop b.stop⟩ :: rest : List Span).Pairwise
          (fun a b => a.start ≤ b.start) :=
        List.pairwise_cons.2 ⟨fun s hs => all.1 s (List.mem_cons_of_mem _ hs), others.2⟩
      exact ih joined
    · intro s hs
      rcases List.mem_cons.1 hs with rfl | hs
      · exact Nat.le_refl _
      · exact Nat.le_trans (all.1 b List.mem_cons_self) (ih all.2 s hs)

theorem mergeAfterApart {last : Span} {spans : List Span}
    (sorted : (last :: spans).Pairwise (fun a b => a.start ≤ b.start)) :
    (mergeAfter last spans).Pairwise (fun a b => a.stop < b.start) := by
  induction spans generalizing last with
  | nil => simp [mergeAfter]
  | cons b rest ih =>
    have all := List.pairwise_cons.1 sorted
    have others := List.pairwise_cons.1 all.2
    unfold mergeAfter
    split
    · exact ih (List.pairwise_cons.2
        ⟨fun s hs => all.1 s (List.mem_cons_of_mem _ hs), others.2⟩)
    · refine List.pairwise_cons.2 ⟨fun s hs => ?_, ih all.2⟩
      have := mergeAfterLater all.2 s hs
      omega

theorem sortedByStart (spans : List Span) :
    (spans.mergeSort Span.ordered).Pairwise (fun a b => a.start ≤ b.start) := by
  refine (List.pairwise_mergeSort Span.orderedTrans Span.orderedTotal spans).imp fun {a b} h => ?_
  simp only [Span.ordered, Bool.or_eq_true, Bool.and_eq_true, decide_eq_true_eq, beq_iff_eq] at h
  omega

include joins in
theorem separatorsEach {spans : List Span} (each : ∀ s ∈ spans, P s) :
    ∀ s ∈ separators spans, P s := by
  have sorted := sortedByStart spans
  have kept : ∀ s ∈ spans.mergeSort Span.ordered, P s := fun s hs => each s (List.mem_mergeSort.1 hs)
  unfold separators
  generalize spans.mergeSort Span.ordered = ordered at sorted kept
  cases ordered with
  | nil => simp [merge]
  | cons s rest => exact mergeAfterEach joins sorted kept

theorem separatorsApart (spans : List Span) :
    (separators spans).Pairwise (fun a b => a.stop < b.start) := by
  have sorted := sortedByStart spans
  unfold separators
  generalize spans.mergeSort Span.ordered = ordered at sorted
  cases ordered with
  | nil => simp [merge]
  | cons s rest => exact mergeAfterApart sorted

end Merging

/- Spans within a text that touch are together a span within it. -/
theorem withinTouching {t : Text} (a b : Span) (left : t.Within a) (right : t.Within b)
    (order : a.start ≤ b.start) (_ : b.start ≤ a.stop) : t.Within ⟨a.start, max a.stop b.stop⟩ := by
  rcases Nat.le_total b.stop a.stop with inside | beyond
  · rw [Nat.max_eq_left inside]
    exact left
  · rw [Nat.max_eq_right beyond]
    obtain ⟨start, -, -⟩ := Text.withinBreaks.1 left
    obtain ⟨-, stop, forward⟩ := Text.withinBreaks.1 right
    exact Text.withinBreaks.2 ⟨start, stop, Nat.le_trans order forward⟩

/- Spans over blanks that touch are together a span over blanks. -/
theorem blankJoins {t : Text} (a b : Span) (blankA : t.Within a ∧ Blank (t.slice a))
    (blankB : t.Within b ∧ Blank (t.slice b)) (order : a.start ≤ b.start)
    (touches : b.start ≤ a.stop) :
    t.Within ⟨a.start, max a.stop b.stop⟩ ∧ Blank (t.slice ⟨a.start, max a.stop b.stop⟩) := by
  refine ⟨withinTouching a b blankA.1 blankB.1 order touches, ?_⟩
  rcases Nat.le_total b.stop a.stop with inside | beyond
  · rw [Nat.max_eq_left inside]
    exact blankA.2
  · rw [Nat.max_eq_right beyond]
    have breaksA := Text.withinBreaks.1 blankA.1
    have breaksB := Text.withinBreaks.1 blankB.1
    have front : t.Within ⟨a.start, b.start⟩ := Text.withinBreaks.2 ⟨breaksA.1, breaksB.1, order⟩
    have shared : t.Within ⟨b.start, a.stop⟩ := Text.withinBreaks.2 ⟨breaksB.1, breaksA.2.1, touches⟩
    have cut : Blank (t.slice ⟨a.start, b.start⟩ ++ t.slice ⟨b.start, a.stop⟩) := by
      rw [← Text.sliceJoin front shared]; exact blankA.2
    rw [Text.sliceJoin front blankB.1]
    exact Text.blankAppend.2 ⟨(Text.blankAppend.1 cut).1, blankB.2⟩

theorem separatorsWithin {t : Text} {spans : List Span} (within : ∀ s ∈ spans, t.Within s) :
    ∀ m ∈ separators spans, t.Within m := separatorsEach withinTouching within

theorem separatorsLaid {t : Text} {spans : List Span} {inside : Text → Prop}
    (each : ∀ m ∈ separators spans, t.Within m ∧ inside (t.slice m)) :
    Laid (fun _ => True) inside 0 t (separators spans) :=
  Text.laidApart each ((separatorsApart spans).imp (fun h => Nat.le_of_lt h))

theorem separatorsBlank {t : Text} {spans : List Span}
    (blank : ∀ s ∈ spans, t.Within s ∧ Blank (t.slice s)) :
    Laid (fun _ => True) Blank 0 t (separators spans) := separatorsLaid (separatorsEach blankJoins blank)

/- What separators leave between them, less what is blank there: what was passed since the last
piece is pending until the next one. -/
theorem gapsLaid {whole t : Text} (before pending : Text) {start : Nat} {seps : List Span}
    (all : whole = before ++ pending ++ t) (blank : Blank pending)
    (reached : start = Text.size (before ++ pending))
    (laid : Laid (fun _ => True) Blank start t seps) :
    Laid Blank (fun u => ¬ Blank u) (Text.size before) (pending ++ t)
      ((gaps start whole.size seps).filter (fun s => decide (¬ Blank (whole.slice s)))) := by
  induction laid generalizing before pending with
  | @done start t =>
    have slice : whole.slice ⟨start, whole.size⟩ = t :=
      Text.sliceWithin (show whole = before ++ pending ++ t ++ [] by simp [all]) reached
        (by simp [all, Nat.add_assoc])
    by_cases last : Blank t
    · simp only [gaps, List.filter, slice, last, not_true_eq_false, decide_false]
      exact .done (Text.blankAppend.2 ⟨blank, last⟩)
    · simp only [gaps, List.filter, slice, last, not_false_eq_true, decide_true]
      refine .span pending t [] (by simp) blank last
        (by simp [reached]) (by simp [reached, all, Nat.add_assoc]) (.done (by simp [Blank]))
  | @span start t s seps gap body rest cut _ filled starts stops tail ih =>
    have slice : whole.slice ⟨start, s.start⟩ = gap :=
      Text.sliceWithin (show whole = before ++ pending ++ gap ++ (body ++ rest) by simp [all, cut])
        reached (by simp only [starts, reached])
    by_cases skipped : Blank gap
    · simp only [gaps, List.filter, slice, skipped, not_true_eq_false, decide_false]
      have := ih before (pending ++ gap ++ body) (by simp [all, cut])
        (Text.blankAppend.2 ⟨Text.blankAppend.2 ⟨blank, skipped⟩, filled⟩)
        (by simp [stops, starts, reached]; omega)
      simpa [cut] using this
    · simp only [gaps, List.filter, slice, skipped, not_false_eq_true, decide_true]
      have next := ih (before ++ pending ++ gap) body (by simp [all, cut])
        filled (by simp [stops, starts, reached, Nat.add_assoc])
      refine .span pending gap (body ++ rest) (by simp [cut]) blank
        skipped (by simp [reached]) (by simp [starts]) ?_
      have ends : s.start = Text.size (before ++ pending ++ gap) := by
        simp [starts, reached, Nat.add_assoc]
      simpa [ends] using next

theorem piecesLaid {t : Text} {spans : List Span}
    (blank : ∀ s ∈ spans, t.Within s ∧ Blank (t.slice s)) :
    Laid Blank (fun u => ¬ Blank u) 0 t (pieces t spans) := by
  rw [piecesFilter]
  exact gapsLaid [] [] rfl (by simp [Blank]) rfl (separatorsBlank blank)

theorem blankLinesBlank {t : Text} {s : Span} (h : s ∈ blankLineSpans t) :
    t.Within s ∧ Blank (t.slice s) := by
  obtain ⟨f, hf, rfl⟩ := List.mem_map.1 h
  have sits := Matcher.findAllSits _ t f hf
  have made : Pattern.Made (fun set => ∀ c, set.holds c = true → Unicode.isBlank c = true)
      (fun _ => True) blankLines := by
    simp only [blankLines, Pattern.chain, Pattern.plus, Pattern.star, Pattern.char, Pattern.anyOf,
      Pattern.Made, Pattern.CharSet.holdsSingle, Pattern.CharSet.holdsOfList, decide_eq_true_eq,
      List.mem_cons, List.not_mem_nil, or_false]
    simp
  refine ⟨sits.within, fun c hc => ?_⟩
  rw [sits.slice] at hc
  obtain ⟨set, blank, holds⟩ := Pattern.takesMade made (sits.taken c hc)
  exact blank c holds

theorem markersBlank {marker : Matcher} {t : Text} {s : Span} (h : s ∈ markerSpans marker t) :
    t.Within s ∧ Blank (t.slice s) := by
  obtain ⟨f, hf, rfl⟩ := List.mem_map.1 h
  obtain ⟨before, inside, after, whole, start, stop⟩ := (Matcher.findAllSits marker t f hf).within
  have text : f.text = inside := by
    rw [← (Matcher.findAllSits marker t f hf).slice, Text.sliceWithin whole start stop]
  have parts : inside = Text.lead inside ++ inside.dropWhile Unicode.isBlank :=
    List.takeWhile_append_dropWhile.symm
  have all : t = before ++ Text.lead inside ++ (inside.dropWhile Unicode.isBlank ++ after) := by
    rw [whole]; conv => lhs; rw [parts]
    simp
  have leads : (leadSpan f).stop = Text.size before + Text.size (Text.lead inside) := by
    simp only [leadSpan, text]; rw [← start]; rfl
  refine ⟨⟨_, _, _, all, start, leads⟩, ?_⟩
  rw [Text.sliceWithin (s := leadSpan f) all start leads]
  exact List.all_eq_true.1 List.all_takeWhile

theorem paragraphsLaid (t : Text) : Laid Blank (fun u => ¬ Blank u) 0 t (paragraphs t) :=
  piecesLaid (fun _ => blankLinesBlank)

theorem markedParagraphsLaid (marker : Matcher) (t : Text) :
    Laid Blank (fun u => ¬ Blank u) 0 t (markedParagraphs marker t) :=
  piecesLaid fun s hs => by
    rcases List.mem_append.1 hs with hs | hs
    · exact blankLinesBlank hs
    · exact markersBlank hs

end Intake.Boundary

namespace Intake.Text
variable {between inside : Text → Prop}

/- What laid out spans leave out is all as required. -/
theorem gapsBetween {whole t : Text} {start : Nat} {spans : List Span} (ahead : Ahead whole start t)
    (laid : Laid between inside start t spans) :
    ∀ g ∈ Boundary.gaps start whole.size spans, whole.Within g ∧ between (whole.slice g) := by
  induction laid with
  | @done start t last =>
    obtain ⟨before, same, reached⟩ := ahead
    have cut : whole = before ++ t ++ [] := by simp [same]
    have ends : whole.size = size before + size t := by simp [same]
    intro g hg
    rcases List.mem_singleton.1 hg with rfl
    exact ⟨⟨_, _, _, cut, reached, ends⟩,
      by rwa [sliceWithin (s := ⟨start, whole.size⟩) cut reached ends]⟩
  | @span start t s spans gap body rest cut space filled starts stops tail ih =>
    obtain ⟨before, same, reached⟩ := ahead
    have parts : whole = before ++ gap ++ (body ++ rest) := by simp [same, cut]
    have ends : s.start = size before + size gap := by rw [starts, reached]
    intro g hg
    rcases List.mem_cons.1 hg with rfl | hg
    · exact ⟨⟨_, _, _, parts, reached, ends⟩,
        by rwa [sliceWithin (s := ⟨start, s.start⟩) parts reached ends]⟩
    · refine ih ⟨before ++ gap ++ body, by simp [parts], ?_⟩ g hg
      simp only [sizeAppend]; omega

end Intake.Text

namespace Intake.Boundary

/- Whatever spans a text has, what their separators leave are slices of it. -/
theorem stretchesWithin {t : Text} {spans : List Span} (within : ∀ s ∈ spans, t.Within s) :
    ∀ g ∈ stretches t spans, t.Within g := by
  have laid : Text.Laid (fun _ => True) (fun _ => True) 0 t (separators spans) :=
    separatorsLaid fun m hm => ⟨separatorsWithin within m hm, trivial⟩
  exact fun g hg => (Text.gapsBetween ⟨[], rfl, rfl⟩ laid g hg).1

end Intake.Boundary
