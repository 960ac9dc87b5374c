/-! Counts as floats. A count is a machine word, rounded to the nearest float; a ratio of two
counts is a single division. -/
namespace Intake.Ratio

def toFloat (n : Nat) : Float := n.toUInt64.toFloat

def of (part whole : Nat) : Float := toFloat part / toFloat whole

end Intake.Ratio
