import Intake.Json.Record

/-! Handling policies. -/
namespace Intake

inductive Policy where
  | logStream
  | mixedSafe
  | procedureDoc
  | technicalFormal
  | dataTable
  | proseText
  deriving DecidableEq, Repr, Inhabited

namespace Policy

def all : List Policy := [logStream, mixedSafe, procedureDoc, technicalFormal, dataTable, proseText]

theorem memberAll (p : Policy) : p ∈ all := by cases p <;> decide

def name : Policy → String
  | logStream => "LOG_STREAM"
  | mixedSafe => "MIXED_SAFE"
  | procedureDoc => "PROCEDURE_DOC"
  | technicalFormal => "TECHNICAL_FORMAL"
  | dataTable => "DATA_TABLE"
  | proseText => "PROSE_TEXT"

theorem nameInjective {a b : Policy} (h : a.name = b.name) : a = b := by
  revert h; cases a <;> cases b <;> decide

def ofDocument? : Json.Document → Option Policy := Json.Document.choice? all name

end Policy

end Intake
