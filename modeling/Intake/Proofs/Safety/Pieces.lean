import Intake.Proofs.Safety.Checked
import Intake.Proofs.Segment.Lossless

/-! Pieces, checked. Behind each separator the text is a slice up to the next one, as separators
that were merged stand apart and within the text; and there are no more of them than positions. -/
namespace Intake.Boundary
open Checked (slice sum difference sliceOk sumOk differenceOk mapOk okBind wordOfSize)
open Pattern (Found Matcher)
open Text (Blank Laid)

/- The blanks that a match opens with are as long as what they leave of it is shorter. -/
def checkedLeadSpan (f : Found) : Checked Span := do
  let lead ← difference f.text.size (Text.size (f.text.dropWhile Unicode.isBlank))
  let stop ← sum f.start lead
  .ok ⟨f.start, stop⟩

def checkedMarkerSpans (marker : Matcher) (t : Text) : Checked (List Span) :=
  (marker.findAll t).mapM checkedLeadSpan

def checkedPiecesFrom (t : Text) (cursor : Nat) : List Span → Checked (List Span)
  | [] => .ok []
  | s :: rest => do
    let inside ← slice t ⟨cursor, s.start⟩
    let later ← checkedPiecesFrom t s.stop rest
    .ok ((keep? ⟨cursor, s.start⟩ inside).toList ++ later)

def checkedPieces (t : Text) (spans : List Span) : Checked (List Span) := do
  let _ ← sum (separators spans).length 1
  checkedPiecesFrom t 0 (separators spans ++ [⟨t.size, t.size⟩])

def checkedParagraphs (t : Text) : Checked (List Span) := checkedPieces t (blankLineSpans t)

def checkedMarkedParagraphs (marker : Matcher) (t : Text) : Checked (List Span) := do
  let markers ← checkedMarkerSpans marker t
  checkedPieces t (blankLineSpans t ++ markers)

theorem leadSpanSafe {marker : Matcher} {t : Text} (held : t.size ≤ Text.longest) {f : Found}
    (found : f ∈ marker.findAll t) : checkedLeadSpan f = .ok (leadSpan f) := by
  have parts : f.text.size = Text.size f.text.lead + Text.size (f.text.dropWhile Unicode.isBlank) := by
    rw [← Text.sizeAppend, Text.lead, List.takeWhile_append_dropWhile]
  have less : Text.size (f.text.dropWhile Unicode.isBlank) ≤ f.text.size := by omega
  have lead : f.text.size - Text.size (f.text.dropWhile Unicode.isBlank) = Text.size f.text.lead := by
    omega
  have inside : f.start + f.text.size ≤ t.size :=
    (Text.withinBound (Matcher.findAllSits marker t f found).within).2
  have fits : f.start + Text.size f.text.lead < UInt64.size := wordOfSize held (by omega)
  simp only [checkedLeadSpan, differenceOk less, lead, okBind, sumOk fits]
  rfl

theorem markerSpansSafe (marker : Matcher) {t : Text} (held : t.size ≤ Text.longest) :
    checkedMarkerSpans marker t = .ok (markerSpans marker t) :=
  mapOk fun _ => leadSpanSafe held

/- Spans that stand strictly apart are no more than the positions there are. -/
theorem apartLength {low high : Nat} {spans : List Span}
    (apart : spans.Pairwise (fun a b => a.stop < b.start))
    (between : ∀ s ∈ spans, low ≤ s.start ∧ s.start ≤ s.stop ∧ s.stop ≤ high) (order : low ≤ high + 1) :
    low + spans.length ≤ high + 1 := by
  induction spans generalizing low with
  | nil => exact order
  | cons s rest ih =>
    have tail := List.pairwise_cons.1 apart
    have here := between s List.mem_cons_self
    have later : s.stop + 1 + rest.length ≤ high + 1 := ih tail.2
      (fun r hr => ⟨tail.1 r hr, (between r (List.mem_cons_of_mem _ hr)).2⟩) (by omega)
    rw [List.length_cons]
    omega

theorem piecesFromSafe {t : Text} {start : Nat} {seps : List Span}
    (within : ∀ g ∈ gaps start t.size seps, t.Within g) :
    checkedPiecesFrom t start (seps ++ [⟨t.size, t.size⟩]) =
      .ok ((gaps start t.size seps).filter (fun s => decide (¬ Blank (t.slice s)))) := by
  have kept : ∀ s, (keep? s (t.slice s)).toList =
      [s].filter (fun s => decide (¬ Blank (t.slice s))) := by
    intro s
    by_cases blank : Blank (t.slice s) <;> simp [keep?, blank]
  induction seps generalizing start with
  | nil =>
    have last := within _ List.mem_cons_self
    simp only [List.nil_append, checkedPiecesFrom, sliceOk last, okBind, kept, List.append_nil, gaps]
  | cons s rest ih =>
    have first := within _ List.mem_cons_self
    have others : ∀ g ∈ gaps s.stop t.size rest, t.Within g :=
      fun g hg => within g (List.mem_cons_of_mem _ hg)
    have later := ih others
    simp only [List.cons_append, checkedPiecesFrom, sliceOk first, okBind, later, kept, gaps]
    rw [← List.filter_append, List.singleton_append]

theorem separatorsLength {t : Text} {spans : List Span} (within : ∀ s ∈ spans, t.Within s) :
    (separators spans).length ≤ t.size + 1 := by
  have each := separatorsWithin within
  have counted : 0 + (separators spans).length ≤ t.size + 1 := apartLength (separatorsApart spans)
    (fun s hs => ⟨Nat.zero_le _, Text.withinBound (each s hs)⟩) (Nat.zero_le _)
  omega

theorem piecesSafe {t : Text} (held : t.size ≤ Text.longest) {spans : List Span}
    (within : ∀ s ∈ spans, t.Within s) : checkedPieces t spans = .ok (pieces t spans) := by
  have counted := separatorsLength within
  have fits : (separators spans).length + 1 < UInt64.size := wordOfSize held (by omega)
  rw [piecesFilter, checkedPieces, sumOk fits, okBind]
  exact piecesFromSafe (stretchesWithin within)

theorem paragraphsSafe {t : Text} (held : t.size ≤ Text.longest) :
    checkedParagraphs t = .ok (paragraphs t) := piecesSafe held fun _ hs => (blankLinesBlank hs).1

theorem markedParagraphsSafe (marker : Matcher) {t : Text} (held : t.size ≤ Text.longest) :
    checkedMarkedParagraphs marker t = .ok (markedParagraphs marker t) := by
  rw [checkedMarkedParagraphs, markerSpansSafe marker held, okBind]
  refine piecesSafe held fun s hs => ?_
  rcases List.mem_append.1 hs with hs | hs
  · exact (blankLinesBlank hs).1
  · exact (markersBlank hs).1

end Intake.Boundary
