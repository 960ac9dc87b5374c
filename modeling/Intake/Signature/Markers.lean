import Intake.Pattern.Match
import Intake.Text.Lines

/-! Markers: dates and times, list items, identifiers, and table rows. The first three are
searched in the whole text; table rows are counted line by line. -/
namespace Intake
open Pattern (chain choice char anyOf one star plus opt edge exactly times)

namespace Marker

def digit : Pattern := one .digit

def word : Pattern := one .word

def wordEdge : Pattern := edge .word

def gap : Pattern := anyOf [' ', '\t']

/- Letters match in either case, and so do their kin outside the alphabet. -/
def anyCase (word : List Char) : Pattern := chain (word.map (fun c => one (.anyCase c)))

def dateSeparator : Pattern := anyOf ['-', '/', '.']

def timeOfDay : Pattern := chain
  [anyOf ['T', ' '], exactly 2 digit, char ':', exactly 2 digit,
   opt true (chain [char ':', exactly 2 digit])]

def date : Pattern := chain
  [wordEdge, exactly 4 digit, dateSeparator, exactly 2 digit, dateSeparator, exactly 2 digit,
   opt true timeOfDay]

def clock : Pattern := chain
  [wordEdge, times 1 (some 2) true digit, char ':', exactly 2 digit, char ':', exactly 2 digit, wordEdge]

/- A date, perhaps with a time of day, or a time with seconds. -/
def time : Pattern := choice [date, clock]

def namedStep : Pattern := chain
  [choice [anyCase ['s', 't', 'e', 'p'], anyCase ['k', 'r', 'o', 'k'],
    anyCase ['k', 'o', 'l', 'e', 'j', 'n', 'o']],
   star true gap, plus true digit, anyOf [':', '.', ')']]

def numberedItem : Pattern := chain [plus true digit, anyOf ['.', ')'], gap]

def bullet : Pattern := chain [anyOf ['-', '*', '+', '\u2022'], gap]

/- A line that opens with a step, a number or a bullet. -/
def listItem : Pattern := chain
  [edge .lineStart, star true gap, choice [namedStep, numberedItem, bullet]]

def capital : Pattern.CharSet := .range 'A' 'Z'

def capitalOrDigit : Pattern.CharSet := (Pattern.CharSet.range 'A' 'Z').union (.range '0' '9')

/- Runs of capitals and digits joined by underscores or hyphens, the first opening with a
capital. -/
def identifier : Pattern := chain
  [wordEdge, one capital, star true (one capitalOrDigit),
   plus true (chain [anyOf ['_', '-'], plus true (one capitalOrDigit)]), wordEdge]

/- Three spaces or more between two words. -/
def tableGap : Pattern := chain [word, times 3 none true (char ' '), word]

def isTableRow (line : Text) : Bool := line.contains '|' || tableGap.matcher.occursIn line

end Marker

structure MarkerCounts where
  time : Nat
  list : Nat
  table : Nat
  identifiers : Nat
  deriving DecidableEq, Repr

namespace MarkerCounts

def scan (t : Text) (lines : List Text) : MarkerCounts where
  time := (Marker.time.matcher.findAll t).length
  list := (Marker.listItem.matcher.findAll t).length
  table := lines.countP Marker.isTableRow
  identifiers := (Marker.identifier.matcher.findAll t).length

end MarkerCounts

end Intake
