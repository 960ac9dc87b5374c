import Intake.Pattern.Notation
import Intake.Proofs.Segment.Coverage

/-! Pieces that markers open. Cutting at markers as well as at blank lines only cuts paragraphs further:
each piece lies in one paragraph and opens where the paragraph does or where a marker has its first
visible character; and every marker that has one opens a piece. -/
namespace Intake.Boundary
open Pattern (Matcher Found)
open Text (Blank Stands)
open Unicode (isBlank)

/- The first visible character of a match stands behind the blanks that the match opens with. -/
theorem markerStands {marker : Matcher} {t : Text} {f : Found} (found : f ∈ marker.findAll t)
    {lead rest : Text} {c : Char} (parts : f.text = lead ++ c :: rest) (blank : Blank lead)
    (visible : isBlank c = false) :
    leadSpan f = ⟨f.start, f.start + Text.size lead⟩ ∧ Stands t (f.start + Text.size lead) c := by
  have opens : f.text.lead = lead := by
    rw [parts, Text.lead, List.takeWhile_append_of_pos blank,
      List.takeWhile_cons_of_neg (by simpa using visible), List.append_nil]
  obtain ⟨before, inside, after, whole, start, stop⟩ := (Matcher.findAllSits marker t f found).within
  have text : f.text = inside := by
    rw [← (Matcher.findAllSits marker t f found).slice, Text.sliceWithin whole start stop]
  have begins : f.start = Text.size before := start
  have all : t = (before ++ lead) ++ c :: (rest ++ after) := by simp [whole, ← text, parts]
  constructor
  · rw [leadSpan, opens]
  · exact ⟨_, _, all, by rw [Text.sizeAppend, begins]⟩

end Intake.Boundary
