import Intake.Proofs.Normalization
import Intake.Proofs.Pipeline.Provenance

/-! Line endings. What a pipeline of the built-in stages makes of a text it makes of the normalized
text; so how lines end and where NULs stand shows in the record of the normalization only. -/
namespace Intake.Pipeline
open Normalization (normalize normalizeTwice Paired Scattered returned normalizePaired
  normalizeReturned normalizeScattered)

def laterStages : List String := ["detect", "policy", "segment", "compress"]

/- Outcomes of which only the first records may differ. -/
structure Agree (o o' : Outcome) : Prop where
  chunks : o'.chunks = o.chunks
  signature : o'.signature = o.signature
  policy : o'.policy = o.policy
  recorded : ∀ stage ∈ laterStages, ∃ a, o.audit? stage = some a ∧ o'.audit? stage = some a
  others : o'.auditTrail.tail = o.auditTrail.tail

section Normalized
variable (c : Config) (segmenter : Segmenter) (metadata : Option Metadata)

/- No stage but the first sees more than the normalized text. -/
def ofNormalized (u : Text) : Outcome :=
  let (signature, detected) := Detector.detect c.detector u
  let (policy, selected) := Selection.select c.selector signature
  let (chunks, segmented) := segmenter.segment u policy signature
  let compression := Compression.compress c.compressor chunks policy
  { chunks := compression.chunks.mapIdx (fun i d =>
      decorate signature policy (answers compression i) d)
    signature := signature
    policy := policy
    auditTrail := [detected, selected, segmented, compression.audit] }

theorem ingestNormalized (t : Text) :
    ingest (stagesOf c segmenter) t metadata =
      { ofNormalized c segmenter (normalize t) with
        auditTrail := Normalization.audit t metadata ::
          (ofNormalized c segmenter (normalize t)).auditTrail } := rfl

theorem compressStage (k : Config.Compressor) (cs : List Chunk) (p : Policy) :
    (Compression.compress k cs p).audit.stage = "compress" := by
  unfold Compression.compress
  split <;> rfl

theorem stagesNormalized (u : Text) : (ofNormalized c segmenter u).stages = laterStages := by
  simp only [Outcome.stages, ofNormalized, List.map_cons, List.map_nil, compressStage]
  rfl

/- A record that is not the first one is found among the others. -/
theorem auditLater (t : Text) {stage : String} (later : stage ∈ laterStages) :
    (ingest (stagesOf c segmenter) t metadata).audit? stage =
      (ofNormalized c segmenter (normalize t)).audit? stage := by
  have other : ("normalize" == stage) = false := by
    simp only [laterStages, List.mem_cons, List.not_mem_nil, or_false] at later
    rcases later with rfl | rfl | rfl | rfl <;> decide
  rw [ingestNormalized, Outcome.audit?, Outcome.audit?]
  exact List.find?_cons_of_neg (by simpa [Normalization.audit] using other)

theorem auditRecorded (u : Text) {stage : String} (later : stage ∈ laterStages) :
    ∃ a, (ofNormalized c segmenter u).audit? stage = some a := by
  rw [← stagesNormalized c segmenter u] at later
  obtain ⟨a, member, same⟩ := List.mem_map.1 later
  refine Option.isSome_iff_exists.1 (List.find?_isSome.2 ⟨a, member, ?_⟩)
  simpa using same

theorem agreeNormalized {t u : Text} (same : normalize u = normalize t) :
    Agree (ingest (stagesOf c segmenter) t metadata) (ingest (stagesOf c segmenter) u metadata) := by
  refine ⟨?_, ?_, ?_, fun stage later => ?_, ?_⟩
  · rw [ingestNormalized, ingestNormalized, same]
  · rw [ingestNormalized, ingestNormalized, same]
  · rw [ingestNormalized, ingestNormalized, same]
  · obtain ⟨a, found⟩ := auditRecorded c segmenter (normalize t) later
    exact ⟨a, by rw [auditLater _ _ _ t later, found],
      by rw [auditLater _ _ _ u later, same, found]⟩
  · rw [ingestNormalized, ingestNormalized, same]
    rfl

end Normalized

/- Whatever the configuration, metadata included: a text without returns may have some of its
newlines written as pairs or all of them as returns, and NULs put in anywhere, even between the
two characters of a pair. -/
theorem endingsMakeNoDifference (c : Config) (segmenter : Segmenter) (metadata : Option Metadata) :
    (∀ t v u : Text, '\x0d' ∉ t → Paired t v ∨ v = returned t → Scattered v u →
      Agree (ingest (stagesOf c segmenter) t metadata)
        (ingest (stagesOf c segmenter) u metadata)) ∧
    ∀ x : Text, Agree (ingest (stagesOf c segmenter) x metadata)
      (ingest (stagesOf c segmenter) (normalize x) metadata) := by
  refine ⟨fun t v u clean written scattered => ?_, fun x => ?_⟩
  · have endings : normalize v = normalize t := by
      rcases written with paired | rfl
      · exact normalizePaired clean paired
      · exact normalizeReturned clean
    exact agreeNormalized c segmenter metadata ((normalizeScattered scattered).trans endings)
  · exact agreeNormalized c segmenter metadata (normalizeTwice x)

/- One newline of two as a pair, with a NUL inside it. -/
theorem pairWithNulAgrees :
    let s := stagesOf {} ⟨{}, (Pattern.char '#').matcher, []⟩
    let t : Text := "a\nb\n".toList
    let u : Text := "a\x0d\x00\nb\n".toList
    '\x0d' ∉ t ∧ Agree (ingest s t none) (ingest s u none) := by
  have clean : '\x0d' ∉ "a\nb\n".toList := by decide
  have paired : Paired ['a', '\n', 'b', '\n'] ['a', '\x0d', '\n', 'b', '\n'] :=
    .keep 'a' (.pair (.keep 'b' (.keep '\n' .nil)))
  have scattered : Scattered ['a', '\x0d', '\n', 'b', '\n'] ['a', '\x0d', '\x00', '\n', 'b', '\n'] :=
    .keep 'a' (.keep '\x0d' (.nul (.keep '\n' (.keep 'b' (.keep '\n' .nil)))))
  exact ⟨clean, (endingsMakeNoDifference {} ⟨{}, (Pattern.char '#').matcher, []⟩ none).1 _ _ _ clean
    (.inl paired) scattered⟩

end Intake.Pipeline
