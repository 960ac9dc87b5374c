import Intake.Json.Record

/-! Structural modes: what kind of text a text looks like. -/
namespace Intake

inductive Mode where
  | empty
  | log
  | telemetry
  | procedure
  | table
  | technical
  | prose
  deriving DecidableEq, Repr, Inhabited

namespace Mode

def all : List Mode := [empty, log, telemetry, procedure, table, technical, prose]

theorem memberAll (m : Mode) : m ∈ all := by cases m <;> decide

def name : Mode → String
  | empty => "EMPTY"
  | log => "LINEAR_LOG_LIKE"
  | telemetry => "MACHINE_TELEMETRY_LIKE"
  | procedure => "LIST_PROCEDURE_LIKE"
  | table => "TABLE_RECORD_LIKE"
  | technical => "TECHNICAL_SPEC_LIKE"
  | prose => "PROSE_PARAGRAPH_LIKE"

theorem nameInjective {a b : Mode} (h : a.name = b.name) : a = b := by
  revert h; cases a <;> cases b <;> decide

/- Modes in which the order of chunks carries meaning. -/
def orderSensitive : Mode → Bool
  | log | procedure => true
  | _ => false

def ofDocument? : Json.Document → Option Mode := Json.Document.choice? all name

end Mode

end Intake
