import Intake.Proofs.Pattern.Demand
import Intake.Proofs.Pattern.LineWise
import Intake.Signature.Markers

/-! Markers are found line by line. None of their patterns takes a newline or asks for the ends of
the text, and each takes a character that is not blank; so only lines that are not blank count,
and their order does not. -/
namespace Intake.Marker
open Pattern (CharSet Made Demands WithinLine chain choice opt plus times exactly char anyOf one
  edge)
open Text (Blank joinLines)
open Unicode (isBlank)

/- A set without blank characters. -/
def Visible (set : CharSet) : Prop := ∀ c, isBlank c = true → set.holds c = false

theorem visibleDigit : Visible .digit := fun _ => CharSet.digitBlank

theorem visibleOfList {cs : List Char} (apart : ∀ c ∈ cs, isBlank c = false) :
    Visible (.ofList cs) := by
  intro c blank
  rw [CharSet.holdsOfList, decide_eq_false_iff_not]
  intro member
  rw [apart c member] at blank
  cases blank

theorem visibleCapital : Visible capital := fun _ => CharSet.rangeBlank (by decide)

theorem visibleCapitalOrDigit : Visible capitalOrDigit := by
  intro c blank
  have digits : (CharSet.range '0' '9').holds c = false := CharSet.rangeBlank (by decide) blank
  rw [capitalOrDigit, CharSet.holdsUnion, digits, Bool.or_false]
  exact visibleCapital c blank

theorem visibleNewline {set : CharSet} (visible : Visible set) : set.holds '\n' = false :=
  visible '\n' Unicode.blankNewline

/- A pattern to be searched for line by line, of which a blank line holds no match. -/
structure OfLines (p : Pattern) : Prop where
  within : WithinLine p
  visible : Demands Visible p

theorem timeOfLines : OfLines time := by
  have digitNewline : CharSet.digit.holds '\n' = false := visibleNewline visibleDigit
  constructor
  · simp [WithinLine, Made, time, date, clock, timeOfDay, choice, chain, opt, exactly, char, anyOf,
      dateSeparator, wordEdge, digit, digitNewline]
  · simp [Demands, time, date, clock, choice, chain, exactly, digit, visibleDigit]

theorem listItemOfLines : OfLines listItem := by
  have digitNewline : CharSet.digit.holds '\n' = false := visibleNewline visibleDigit
  have bullets : Visible (.ofList ['-', '*', '+', '\u2022']) := visibleOfList (by simp; decide)
  constructor
  · simp [WithinLine, Made, listItem, namedStep, numberedItem, bullet, choice, chain, Pattern.star,
      plus, anyOf, anyCase, gap, digit, digitNewline, CharSet.anyCaseNewline]
  · simp [Demands, listItem, namedStep, numberedItem, bullet, choice, chain, Pattern.star, plus,
      digit, visibleDigit, anyOf, bullets]

theorem identifierOfLines : OfLines identifier := by
  have capitalNewline : capital.holds '\n' = false := visibleNewline visibleCapital
  have bothNewline : capitalOrDigit.holds '\n' = false := visibleNewline visibleCapitalOrDigit
  constructor
  · simp [WithinLine, Made, identifier, chain, Pattern.star, plus, anyOf, wordEdge,
      capitalNewline, bothNewline]
  · simp [Demands, identifier, chain, visibleCapital]

theorem missedInBlank {p : Pattern} (ofLines : OfLines p) (l : Text) (blank : Blank l) :
    p.matcher.findAll l = [] :=
  Pattern.findAllMisses ofLines.visible fun c hc _ visible => visible c (blank c hc)

/- In a text a pattern is found as often as in all its lines that are not blank. -/
theorem foundInLines {p : Pattern} (ofLines : OfLines p) (t : Text) :
    (p.matcher.findAll t).length =
      ((t.lines.filter (fun l => decide (¬ Blank l))).flatMap p.matcher.findAll).length := by
  have joined := Pattern.findAllLines ofLines.within (Text.linesNonempty t)
  rw [Text.joinLinesLines] at joined
  rw [joined, Pattern.Matcher.findLinesLength, Text.flatMapVisible (missedInBlank ofLines)]

end Intake.Marker

namespace Intake.MarkerCounts
open Marker (foundInLines)
open Text (Blank)

def ofLines (ls : List Text) : MarkerCounts where
  time := (ls.flatMap Marker.time.matcher.findAll).length
  list := (ls.flatMap Marker.listItem.matcher.findAll).length
  table := ls.countP Marker.isTableRow
  identifiers := (ls.flatMap Marker.identifier.matcher.findAll).length

theorem scanLines (t : Text) : scan t (t.lines.filter (fun l => decide (¬ Blank l))) =
    ofLines (t.lines.filter (fun l => decide (¬ Blank l))) := by
  rw [ofLines, ← foundInLines Marker.timeOfLines, ← foundInLines Marker.listItemOfLines,
    ← foundInLines Marker.identifierOfLines]
  rfl

theorem ofLinesPerm {ls ks : List Text} (same : ls.Perm ks) : ofLines ls = ofLines ks := by
  rw [ofLines, ofLines, (same.flatMap_right _).length_eq, (same.flatMap_right _).length_eq,
    (same.flatMap_right _).length_eq, same.countP_eq]

end Intake.MarkerCounts
