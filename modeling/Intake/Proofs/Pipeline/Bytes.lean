import Intake.Proofs.Pipeline.Provenance
import Intake.Proofs.Text.Encoding

/-! Bytes at the boundary. Those of a text are ingested as that text; all others are refused
before any stage runs, and what is said about them tells how far they were a text. -/
namespace Intake.Pipeline
open Text (encode decode IsText CutOff LongestStart)

def refusal : String := "Invalid input: input is not valid UTF-8: "

/- What is said of bytes of which the first `index`, and no more, are a text. -/
structure Refused (bytes : List UInt8) (fault : Fault) (index : Nat) : Prop where
  invalid : ∃ length, fault = .notText ⟨index, length⟩ ∧ (length = none ↔ CutOff bytes)
  longest : LongestStart bytes index
  incomplete : CutOff bytes → fault.message =
    refusal ++ ("incomplete utf-8 byte sequence from index " ++ toString index)
  broken : ¬ CutOff bytes → ∃ length : Nat, fault.message =
    refusal ++ ("invalid utf-8 sequence of " ++ toString length ++ " bytes from index " ++
      toString index)

theorem notTextRefused {bytes : List UInt8} (refused : ¬ IsText bytes) :
    ∃ flaw : Text.Flaw, decode bytes = .error flaw ∧ Refused bytes (.notText flaw) flaw.index := by
  obtain ⟨⟨index, length⟩, flawed, longest, cut⟩ := Text.decodeRefuses refused
  refine ⟨_, flawed, ⟨length, rfl, cut⟩, longest, fun short => ?_, fun whole => ?_⟩
  · cases cut.2 short
    rfl
  · cases length with
    | none => exact absurd (cut.1 rfl) whole
    | some length => exact ⟨length, rfl⟩

theorem ingestEncoded (s : Stages) (t : Text) (metadata : Option Metadata) :
    ingestBytes s (encode t) metadata = .ok (ingest s t metadata) := by
  rw [ingestBytes, Text.decodeEncode]

theorem ingestRefused (s : Stages) {bytes : List UInt8} (refused : ¬ IsText bytes)
    (metadata : Option Metadata) : ∃ fault index,
      ingestBytes s bytes metadata = .error fault ∧ Refused bytes fault index := by
  obtain ⟨flaw, flawed, said⟩ := notTextRefused refused
  exact ⟨.notText flaw, flaw.index, by rw [ingestBytes, flawed], said⟩

/- For any stages, built in or not. -/
theorem bytesAtBoundary (s : Stages) (bytes : List UInt8) (metadata : Option Metadata) :
    (∀ t, encode t = bytes → ingestBytes s bytes metadata = .ok (ingest s t metadata)) ∧
    (¬ IsText bytes → ∃ fault index,
      ingestBytes s bytes metadata = .error fault ∧ Refused bytes fault index) ∧
    ((∃ o, ingestBytes s bytes metadata = .ok o) ↔ IsText bytes) := by
  refine ⟨?_, fun refused => ingestRefused s refused metadata, ?_, ?_⟩
  · rintro t rfl
    exact ingestEncoded s t metadata
  · rintro ⟨o, accepted⟩
    refine Classical.byContradiction fun refused => ?_
    obtain ⟨fault, index, failed, -⟩ := ingestRefused s refused metadata
    rw [accepted] at failed
    cases failed
  · rintro ⟨t, rfl⟩
    exact ⟨_, ingestEncoded s t metadata⟩

/- The first two of the three bytes of a euro sign, behind a letter. -/
theorem euroSignCutOff :
    let s := stagesOf {} ⟨{}, (Pattern.char '#').matcher, []⟩
    let bytes : List UInt8 := [0x66, 0xE2, 0x82]
    encode ['f', '€'] = bytes ++ [0xAC] ∧ ¬ IsText bytes ∧
      ∃ fault, ingestBytes s bytes none = .error fault ∧ Refused bytes fault 1 := by
  intro s bytes
  obtain ⟨-, refused, accepted⟩ := bytesAtBoundary s bytes none
  have failed : ingestBytes s bytes none = .error (.notText ⟨1, none⟩) := rfl
  have noText : ¬ IsText bytes := fun text => by
    obtain ⟨o, ok⟩ := accepted.2 text
    rw [failed] at ok
    cases ok
  obtain ⟨fault, index, said, refusal⟩ := refused noText
  rw [failed] at said
  obtain ⟨length, flaw, -⟩ := refusal.invalid
  cases said
  cases flaw
  exact ⟨by decide, noText, _, failed, refusal⟩

end Intake.Pipeline
