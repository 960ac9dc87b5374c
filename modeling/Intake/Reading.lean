import Intake.Pipeline
import Intake.Config.Document

/-! Reading the domain's types from JSON texts. A text may nest its brackets only so deep
where free-form data is read; parts that are passed over do not count. -/
namespace Intake.Reading
open Json (Document)

def read {α : Type} (decode : Document → Option α) (t : Text) : Except Fault α :=
  match (Document.read t).bind decode with
  | some a => .ok a
  | none => .error .unreadable

def readShallow {α : Type} (decode : Document → Option α) (depth : Document → Nat) :
    Text → Except Fault α :=
  read (fun d => if depth d ≤ Json.nestingLimit then decode d else none)

def chunk : Text → Except Fault Chunk := readShallow Chunk.ofDocument? Chunk.depth

def audit : Text → Except Fault Audit := readShallow Audit.ofDocument? Audit.depth

def outcome : Text → Except Fault Outcome := readShallow Outcome.ofDocument? Outcome.depth

end Intake.Reading
