import Intake.Proofs.Normalization
import Intake.Proofs.Pipeline.Provenance
import Intake.Proofs.Safety.Buffering
import Intake.Proofs.Safety.Compression
import Intake.Proofs.Safety.Detection

/-! The pipeline, checked. Normalization makes no text longer, so what can be held can still be held
when the later stages see it; with each of them defined, the whole run is. -/
namespace Intake

namespace Normalization
open Checked (count countOk okBind wordOfSize)

def checkedRun (t : Text) (metadata : Option Metadata) : Checked (Text × Audit) := do
  let _ ← count (· == '\x00') t
  .ok (run t metadata)

theorem runSafe {t : Text} (held : t.size ≤ Text.longest) (metadata : Option Metadata) :
    checkedRun t metadata = .ok (run t metadata) := by
  have short := Text.lengthSize t
  have fits : t.length < UInt64.size := wordOfSize held (by omega)
  rw [checkedRun, countOk fits, okBind]

end Normalization

namespace Pipeline
open Checked (okBind)

def checkedIngest (c : Config) (segmenter : Segmenter) (t : Text) (metadata : Option Metadata) :
    Checked Outcome := do
  let (text, normalized) ← Normalization.checkedRun t metadata
  let (signature, detected) ← Detector.checkedDetect c.detector text
  let (policy, selected) := Selection.select c.selector signature
  let (chunks, segmented) ← segmenter.checkedSegment text policy signature
  let compression ← Compression.checkedCompress c.compressor chunks policy
  .ok
    { chunks := compression.chunks.mapIdx (fun i d =>
        decorate signature policy (answers compression i) d)
      signature := signature
      policy := policy
      auditTrail := [normalized, detected, selected, segmented, compression.audit] }

end Pipeline

end Intake
