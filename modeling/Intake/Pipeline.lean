import Intake.Compression
import Intake.Config.Check
import Intake.Normalization
import Intake.Segment.Segmenter
import Intake.Selection
import Intake.Signature.Detector

/-! The pipeline: five stages, each fed with the results of those before it. The chunks that
leave it carry the signature, the policy, the version and the indices they answer for. -/
namespace Intake
open Json (Value Document)
open Json.Document (record? fieldDepth listDepth list?)

def version : String := "1.0.0"

structure Stages where
  normalize : Text → Option Metadata → Text × Audit
  detect : Text → Signature × Audit
  select : Signature → Policy × Audit
  segment : Text → Policy → Signature → List Chunk × Audit
  compress : List Chunk → Policy → Compression

structure Outcome where
  chunks : List Chunk
  signature : Signature
  policy : Policy
  auditTrail : List Audit

namespace Outcome

def stages (o : Outcome) : List String := o.auditTrail.map (·.stage)

def audit? (o : Outcome) (stage : String) : Option Audit :=
  o.auditTrail.find? (fun a => a.stage == stage)

def toValue (o : Outcome) : Value := .record
  [("chunks", .array (o.chunks.map Chunk.toValue)),
   ("signature", o.signature.toValue),
   ("policy", .string o.policy.name),
   ("audit_trail", .array (o.auditTrail.map Audit.toValue))]

def fieldNames : List String := ["chunks", "signature", "policy", "audit_trail"]

def ofDocument? (d : Document) : Option Outcome := do
  match ← record? fieldNames d with
  | [some chunks, some signature, some policy, some trail] =>
    some ⟨← list? Chunk.ofDocument? chunks, ← Signature.ofDocument? signature,
      ← Policy.ofDocument? policy, ← list? Audit.ofDocument? trail⟩
  | _ => none

def depth (d : Document) : Nat :=
  max (fieldDepth fieldNames "chunks" (listDepth Chunk.depth) d)
    (fieldDepth fieldNames "audit_trail" (listDepth Audit.depth) d)

end Outcome

namespace Pipeline

/- What every chunk is told: its content is left alone. -/
def decorate (signature : Signature) (policy : Policy) (answersFor : List Nat) (c : Chunk) : Chunk :=
  (((c.withMeta "signature" signature.toValue signature.canonicalToValue).withString
    "policy" policy.name).withString
    "ingest_version" version).withMeta
    "compression_provenance" (.ofNats answersFor) (Value.canonicalOfNats _)

/- A chunk beyond the end of the list of retained indices goes by its own position. -/
def answers (c : Compression) (position : Nat) : List Nat :=
  Compression.answersFor c.provenance (c.retained[position]?.getD position)

def ingest (s : Stages) (t : Text) (metadata : Option Metadata) : Outcome :=
  let (text, normalized) := s.normalize t metadata
  let (signature, detected) := s.detect text
  let (policy, selected) := s.select signature
  let (chunks, segmented) := s.segment text policy signature
  let compression := s.compress chunks policy
  { chunks := compression.chunks.mapIdx (fun i c =>
      decorate signature policy (answers compression i) c)
    signature := signature
    policy := policy
    auditTrail := [normalized, detected, selected, segmented, compression.audit] }

/- Bytes that are no text are refused before any stage runs. -/
def ingestBytes (s : Stages) (bytes : List UInt8) (metadata : Option Metadata) :
    Except Fault Outcome :=
  match Text.decode bytes with
  | .ok t => .ok (ingest s t metadata)
  | .error flaw => .error (.notText flaw)

end Pipeline

namespace Stages

/- The stages that a checked configuration is made into. -/
def ofConfig (c : Config) : Except Fault Stages := do
  c.check
  let segmenter ← Segmenter.ofConfig c.segmenter
  .ok
    { normalize := Normalization.run
      detect := Detector.detect c.detector
      select := Selection.select c.selector
      segment := segmenter.segment
      compress := Compression.compress c.compressor }

end Stages

end Intake
