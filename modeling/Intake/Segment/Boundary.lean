import Intake.Pattern.Match
import Intake.Text.Slices

/-! Piece boundaries. Separator spans are sorted, merged where they touch, and what lies
between them is a piece unless it is blank. Blank lines separate paragraphs; a marker cuts in
front of its text, and only the blanks it opens with are a separator. -/
namespace Intake.Boundary
open Pattern (chain char plus star anyOf Found Matcher)

def blankLines : Pattern :=
  chain [char '\n', plus true (chain [star true (anyOf [' ', '\t']), char '\n'])]

def blankLineSpans (t : Text) : List Span := (blankLines.matcher.findAll t).map (·.span)

def leadSpan (m : Found) : Span := ⟨m.start, m.start + Text.size m.text.lead⟩

def markerSpans (marker : Matcher) (t : Text) : List Span := (marker.findAll t).map leadSpan

/- Spans in order of their starts; one that starts within the last joins it. -/
def mergeAfter (last : Span) : List Span → List Span
  | [] => [last]
  | s :: rest =>
    if s.start ≤ last.stop then mergeAfter ⟨last.start, max last.stop s.stop⟩ rest
    else last :: mergeAfter s rest

def merge : List Span → List Span
  | [] => []
  | s :: rest => mergeAfter s rest

def separators (spans : List Span) : List Span := merge (spans.mergeSort Span.ordered)

def gaps (start stop : Nat) : List Span → List Span
  | [] => [⟨start, stop⟩]
  | s :: rest => ⟨start, s.start⟩ :: gaps s.stop stop rest

def stretches (t : Text) (spans : List Span) : List Span := gaps 0 t.size (separators spans)

def keep? (s : Span) (inside : Text) : Option Span := if inside.Blank then none else some s

def pieces (t : Text) (spans : List Span) : List Span :=
  (List.zipWith keep? (stretches t spans) (t.slices (stretches t spans))).filterMap id

theorem keptAre {α : Type} (p : α → Prop) [DecidablePred p] (xs : List α) :
    (xs.map (fun x => if p x then none else some x)).filterMap id =
      xs.filter (fun x => decide (¬ p x)) := by
  induction xs with
  | nil => rfl
  | cons x xs ih => by_cases h : p x <;> simpa [h] using ih

/- The pieces are the stretches between separators that are not blank. -/
theorem piecesFilter (t : Text) (spans : List Span) :
    pieces t spans = (stretches t spans).filter (fun s => decide (¬ (t.slice s).Blank)) := by
  have kept := t.zipSlices id keep? (stretches t spans)
  rw [List.map_id] at kept
  rw [pieces, kept]
  exact keptAre (fun s => (t.slice s).Blank) (stretches t spans)

def paragraphs (t : Text) : List Span := pieces t (blankLineSpans t)

def markedParagraphs (marker : Matcher) (t : Text) : List Span :=
  pieces t (blankLineSpans t ++ markerSpans marker t)

end Intake.Boundary
