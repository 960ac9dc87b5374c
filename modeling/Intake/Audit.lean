import Intake.Metadata

/-! Audit records: which stage did what, with a trace of the figures it went by. -/
namespace Intake
open Json (Value Document)
open Json.Document (record? fieldDepth string?)

structure Audit where
  stage : String
  action : String
  trace : Metadata

namespace Audit

def toValue (a : Audit) : Value := .record
  [("stage", .string a.stage), ("action", .string a.action), ("trace", a.trace.toValue)]

def fieldNames : List String := ["stage", "action", "trace"]

def ofDocument? (d : Document) : Option Audit := do
  match ← record? fieldNames d with
  | [some stage, some action, some trace] =>
    some ⟨← string? stage, ← string? action, ← Metadata.ofDocument? trace⟩
  | _ => none

def depth (d : Document) : Nat := fieldDepth fieldNames "trace" Document.depth d

end Audit

end Intake
