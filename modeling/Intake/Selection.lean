import Intake.Audit
import Intake.Config.Basic
import Intake.Policy
import Intake.Signature.Basic

/-! Selection of a policy from a signature. The rules form a chain of which the first that
applies decides; their order is part of what they mean. -/
namespace Intake

/-- The rule that decided. -/
inductive Rule where
  | conflict
  | logRepeatable
  | telemetry
  | logNotRepeatable
  | procedure
  | technical
  | table
  | fallback
  deriving DecidableEq, Repr, Inhabited

namespace Rule

def all : List Rule :=
  [conflict, logRepeatable, telemetry, logNotRepeatable, procedure, technical, table, fallback]

theorem memberAll (r : Rule) : r ∈ all := by cases r <;> decide

def name : Rule → String
  | conflict => "conflict"
  | logRepeatable => "log_repeatable"
  | telemetry => "telemetry"
  | logNotRepeatable => "log_not_repeatable"
  | procedure => "procedure"
  | technical => "technical"
  | table => "table"
  | fallback => "fallback"

theorem nameInjective {a b : Rule} (h : a.name = b.name) : a = b := by
  revert h; cases a <;> cases b <;> decide

def policy : Rule → Policy
  | conflict => .mixedSafe
  | logRepeatable => .logStream
  | telemetry => .logStream
  | logNotRepeatable => .mixedSafe
  | procedure => .procedureDoc
  | technical => .technicalFormal
  | table => .dataTable
  | fallback => .proseText

def ofDocument? : Json.Document → Option Rule := Json.Document.choice? all name

end Rule

namespace Selection

def repeatable (c : Config.Selector) (s : Signature) : Bool :=
  decide (c.logRepeatability < s.distribution.repeatability)

def rule (c : Config.Selector) (s : Signature) : Rule :=
  if s.stability.conflict then .conflict
  else match s.mode with
    | .log => if repeatable c s then .logRepeatable else .logNotRepeatable
    | .telemetry => if repeatable c s then .logRepeatable else .telemetry
    | .procedure => .procedure
    | .technical => .technical
    | .table => .table
    | .empty | .prose => .fallback

def policy (c : Config.Selector) (s : Signature) : Policy := (rule c s).policy

def audit (c : Config.Selector) (s : Signature) : Audit :=
  ⟨"policy", "dominance_selection",
    ((((Metadata.empty.setString "policy" (policy c s).name).setString
      "rule" (rule c s).name).setString
      "mode" s.mode.name).set
      "conflict" (.bool s.stability.conflict)).set
      "repeatability_score" (.ofFloat s.distribution.repeatability)
        (Json.Value.canonicalOfFloat _)⟩

def select (c : Config.Selector) (s : Signature) : Policy × Audit := (policy c s, audit c s)

end Selection

end Intake
