import Intake.Proofs.Json.Record
import Intake.Proofs.Pipeline.Provenance

/-! Outcomes written as JSON values and read back. Counts are machine words, and JSON has no float
that is not finite; under these conditions nothing is lost, however deep metadata nests. -/
namespace Intake
open Json (Value)
open Json.Value (recordRead countRead floatRead quoteRead listRead choiceRead)

theorem Mode.written (m : Mode) : Mode.ofDocument? (Value.string m.name).document = some m :=
  choiceRead nameInjective m.memberAll

theorem Policy.written (p : Policy) : Policy.ofDocument? (Value.string p.name).document = some p :=
  choiceRead nameInjective p.memberAll

namespace Shape

def Finite (s : Shape) : Prop :=
  ∀ x ∈ [s.averageLineLength, s.digitRatio, s.specialRatio, s.upperRatio], x.isFinite = true

def Words (s : Shape) : Prop :=
  ∀ n ∈ [s.lineCount, s.timeMarkers, s.listMarkers, s.tableMarkers, s.identifiers], n < UInt64.size

theorem written {s : Shape} (finite : s.Finite) (words : s.Words) :
    ofDocument? s.toValue.document = some s := by
  have fields : Json.Document.record? fieldNames s.toValue.document = some _ :=
    recordRead rfl (by decide)
  simp only [Finite, Words, List.forall_mem_cons] at finite words
  obtain ⟨average, digit, special, upper, -⟩ := finite
  obtain ⟨lines, time, list, table, identifiers, -⟩ := words
  rw [ofDocument?, fields]
  simp only [List.map_cons, List.map_nil, Option.bind_eq_bind, Option.bind_some, Mode.written,
    countRead lines, countRead time, countRead list, countRead table, countRead identifiers,
    floatRead average, floatRead digit, floatRead special, floatRead upper]

end Shape

namespace Distribution

def Finite (d : Distribution) : Prop := ∀ x ∈ [d.tokenEntropy, d.repeatability], x.isFinite = true

theorem written {d : Distribution} (finite : d.Finite) (word : d.vocabulary < UInt64.size) :
    ofDocument? d.toValue.document = some d := by
  have fields : Json.Document.record? fieldNames d.toValue.document = some _ :=
    recordRead rfl (by decide)
  simp only [Finite, List.forall_mem_cons] at finite
  obtain ⟨entropy, repeatability, -⟩ := finite
  rw [ofDocument?, fields]
  simp only [List.map_cons, List.map_nil, Option.bind_eq_bind, Option.bind_some,
    floatRead entropy, floatRead repeatability, countRead word]

end Distribution

theorem Stability.written (s : Stability) : ofDocument? s.toValue.document = some s := by
  have fields : Json.Document.record? fieldNames s.toValue.document = some _ :=
    recordRead rfl (by decide)
  rw [ofDocument?, fields]
  rfl

namespace Signature

def Finite (s : Signature) : Prop := s.shape.Finite ∧ s.distribution.Finite

def Words (s : Signature) : Prop := s.shape.Words ∧ s.distribution.vocabulary < UInt64.size

theorem written {s : Signature} (finite : s.Finite) (words : s.Words) :
    ofDocument? s.toValue.document = some s := by
  have fields : Json.Document.record? fieldNames s.toValue.document = some _ :=
    recordRead rfl (by decide)
  rw [ofDocument?, fields]
  simp only [List.map_cons, List.map_nil, Option.bind_eq_bind, Option.bind_some,
    Shape.written finite.1 words.1, Distribution.written finite.2 words.2, Stability.written]

end Signature

namespace Chunk

def Words (c : Chunk) : Prop := c.offset < UInt64.size ∧ c.length < UInt64.size

theorem written {c : Chunk} (words : c.Words) : ofDocument? c.toValue.document = some c := by
  have fields : Json.Document.record? fieldNames c.toValue.document = some _ :=
    recordRead rfl (by decide)
  rw [ofDocument?, fields]
  simp only [List.map_cons, List.map_nil, Option.bind_eq_bind, Option.bind_some, quoteRead,
    Metadata.ofDocumentToValue, countRead words.1, countRead words.2, String.toList_ofList]

end Chunk

theorem Audit.written (a : Audit) : ofDocument? a.toValue.document = some a := by
  have fields : Json.Document.record? fieldNames a.toValue.document = some _ :=
    recordRead rfl (by decide)
  rw [ofDocument?, fields]
  simp only [List.map_cons, List.map_nil, Option.bind_eq_bind, Option.bind_some, quoteRead,
    Metadata.ofDocumentToValue]

namespace Outcome

def Words (o : Outcome) : Prop := o.signature.Words ∧ ∀ c ∈ o.chunks, c.Words

theorem written {o : Outcome} (finite : o.signature.Finite) (words : o.Words) :
    ofDocument? o.toValue.document = some o := by
  have fields : Json.Document.record? fieldNames o.toValue.document = some _ :=
    recordRead rfl (by decide)
  have chunks := listRead fun c member => Chunk.written (words.2 c member)
  have trail := listRead fun a (_ : a ∈ o.auditTrail) => a.written
  rw [ofDocument?, fields]
  simp only [List.map_cons, List.map_nil, Option.bind_eq_bind, Option.bind_some, chunks, trail,
    Signature.written finite words.1, Policy.written]

end Outcome

/- Chunks, records and signatures on their own, whole outcomes, and the signature that every chunk
of an outcome carries. -/
theorem outcomesReadBack :
    (∀ o : Outcome, o.signature.Finite → o.Words →
      Outcome.ofDocument? o.toValue.document = some o) ∧
    (∀ c : Chunk, c.Words → Chunk.ofDocument? c.toValue.document = some c) ∧
    (∀ a : Audit, Audit.ofDocument? a.toValue.document = some a) ∧
    (∀ s : Signature, s.Finite → s.Words → Signature.ofDocument? s.toValue.document = some s) ∧
    ∀ (s : Stages) (t : Text) (metadata : Option Metadata),
      let o := Pipeline.ingest s t metadata
      o.signature.Finite → o.signature.Words → ∀ c ∈ o.chunks, ∃ v,
        c.metadata.get? "signature" = some v ∧ Signature.ofDocument? v.document = some o.signature := by
  refine ⟨fun _ => Outcome.written, fun _ => Chunk.written, Audit.written, fun _ => Signature.written,
    ?_⟩
  intro s t metadata o finite words c member
  obtain ⟨answersFor, d, told⟩ := Pipeline.chunkTold member
  exact ⟨o.signature.toValue, told.signature, Signature.written finite words⟩

/- A log of one chunk, with metadata that nests and numbers of both kinds. -/
def sampleOutcome : Outcome where
  chunks := [⟨['é', '\n'], (Metadata.empty.setString "type" "log_window").set "extracted_features"
    (.object [("depth", .array [.int (-1), .float 0.5, .object []]), ("level", .null)])
    (.object (by decide) (by
      simp only [List.forall_mem_cons, List.not_mem_nil, false_implies, implies_true, and_true]
      refine ⟨.array ?_, .null⟩
      simp only [List.forall_mem_cons, List.not_mem_nil, false_implies, implies_true, and_true]
      exact ⟨.int, .float rfl, .object .nil (by simp)⟩)), 7, 3⟩]
  signature := ⟨⟨.log, 9, 2.5, 0.25, 0.0, 0.125, 9, 0, 0, 1⟩, ⟨1.5, 1.0, 4⟩, ⟨false, true⟩⟩
  policy := .logStream
  auditTrail := [⟨"compress", "pattern_dedup", Metadata.empty.setNat "merged_roots" 1⟩]

theorem sampleReadBack : sampleOutcome.signature.Finite ∧ sampleOutcome.Words ∧
    Outcome.ofDocument? sampleOutcome.toValue.document = some sampleOutcome := by
  have finite : sampleOutcome.signature.Finite := by
    simp only [Signature.Finite, Shape.Finite, Distribution.Finite, List.forall_mem_cons,
      List.not_mem_nil, false_implies, implies_true, and_true]
    exact ⟨⟨rfl, rfl, rfl, rfl⟩, rfl, rfl⟩
  have words : sampleOutcome.Words := by
    have shape : ∀ n ∈ [9, 9, 0, 0, 1], n < UInt64.size := by decide
    have chunk : 7 < UInt64.size ∧ 3 < UInt64.size := by decide
    refine ⟨⟨shape, by decide⟩, fun c member => ?_⟩
    rw [List.mem_singleton.1 member]
    exact chunk
  exact ⟨finite, words, outcomesReadBack.1 _ finite words⟩

end Intake
