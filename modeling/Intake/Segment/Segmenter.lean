import Intake.Audit
import Intake.Policy
import Intake.Segment.Boundary
import Intake.Segment.Buffer
import Intake.Segment.Feature
import Intake.Segment.Window
import Intake.Signature.Basic

/-! Segmentation under a policy: windows of lines for a log stream, and buffered pieces for
every other policy. All patterns are compiled beforehand. -/
namespace Intake

structure Segmenter where
  config : Config.Segmenter
  stepMarker : Pattern.Matcher
  rules : List CompiledRule

namespace Segmenter
open Json (Value)

/- The step pattern is compiled first, then the rules in order. -/
def ofConfig (c : Config.Segmenter) : Except Fault Segmenter :=
  match Pattern.read c.stepPattern.toList with
  | none => .error (.badPattern "step_pattern")
  | some marker => do
    let rules ← Feature.compileAll c.extractionRules
    .ok ⟨c, marker.matcher, rules⟩

def maxSize (c : Config.Segmenter) : Policy → UInt64
  | .procedureDoc => c.procedureMaxSize
  | .mixedSafe => c.mixedMaxSize
  | .technicalFormal | .dataTable | .proseText | .logStream => c.defaultMaxSize

def unitName : Policy → String
  | .procedureDoc => "procedural_step"
  | .mixedSafe => "mixed_safe_block"
  | .technicalFormal => "technical_block"
  | .dataTable => "table_block"
  | .proseText | .logStream => "prose_block"

def pieces (s : Segmenter) (t : Text) : Policy → List Span
  | .procedureDoc => Boundary.markedParagraphs s.stepMarker t
  | _ => Boundary.paragraphs t

def plainChunks (s : Segmenter) (t : Text) : Policy → List Chunk
  | .logStream => Window.chunks s.config.logWindowLines.toNat t
  | p => Buffer.chunks (.of (maxSize s.config p) s.config.hardLimitFactor) (unitName p) t
      (s.pieces t p)

def strategy : Policy → String
  | .logStream => "log_windowing"
  | _ => "boundary_buffering"

def bound (s : Segmenter) : Policy → UInt64
  | .logStream => s.config.logWindowLines
  | p => maxSize s.config p

def chunks (s : Segmenter) (t : Text) (p : Policy) : List Chunk :=
  Feature.apply s.rules (s.plainChunks t p)

def isOversized (c : Chunk) : Bool := c.metadata.contains "oversized_atom"

/- The record of chunks before and after features were attached. -/
def record (s : Segmenter) (p : Policy) (signature : Signature) (plain chunks : List Chunk) : Audit :=
  ⟨"segment", strategy p,
    (((((Metadata.empty.setString "policy" p.name).setString
      "mode" signature.mode.name).setNat
      "chunk_count" chunks.length).setNat
      "bound" (s.bound p).toNat).setNat
      "oversized_pieces" (chunks.countP isOversized)).set
      "extracted_keys" (.ofStrings (Feature.keys s.rules plain))
        (Value.canonicalOfStrings _)⟩

def audit (s : Segmenter) (t : Text) (p : Policy) (signature : Signature) : Audit :=
  s.record p signature (s.plainChunks t p) (s.chunks t p)

def segment (s : Segmenter) (t : Text) (p : Policy) (signature : Signature) : List Chunk × Audit :=
  let plain := s.plainChunks t p
  let chunks := Feature.apply s.rules plain
  (chunks, s.record p signature plain chunks)

/- Cutting the text once serves both the chunks and their record. -/
theorem segmentParts (s : Segmenter) (t : Text) (p : Policy) (signature : Signature) :
    s.segment t p signature = (s.chunks t p, s.audit t p signature) := rfl

end Segmenter

end Intake
