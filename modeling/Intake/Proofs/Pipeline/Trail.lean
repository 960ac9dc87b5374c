import Intake.Proofs.Pipeline.Endings

/-! The audit trail. Each stage writes its record from figures of its own; what the records say
holds of the outcome, for the chunks that left as for those that were cut. -/
namespace Intake.Pipeline
open Json (Value)
open Normalization (dropNuls nuls pairs)

def stageNames : List String := ["normalize", "detect", "policy", "segment", "compress"]

/- What the record of a stage has under a key. -/
def Records (o : Outcome) (stage key : String) (value : Value) : Prop :=
  (o.audit? stage).bind (·.trace.get? key) = some value

/- The records of an outcome against what it holds: `u` is the text that was cut, and the lists
are those that the chunks answer for. -/
structure Truthful (s : Stages) (t u : Text) (o : Outcome) (lists : List (List Nat)) : Prop where
  stages : o.stages = stageNames
  seen : ∃ detected, s.detect u = (o.signature, detected) ∧ o.audit? "detect" = some detected ∧
    o.audit? "segment" = some (s.segment u o.policy o.signature).2
  original : Records o "normalize" "original_length" (.ofNat t.size)
  normalized : Records o "normalize" "normalized_length" (.ofNat u.size)
  removed : Records o "normalize" "null_bytes_removed" (.ofNat (nuls t))
  lengths : u.size + nuls t + pairs (dropNuls t) = t.size
  signature : Records o "detect" "signature" o.signature.toValue
  policy : ∀ stage ∈ ["policy", "segment", "compress"], Records o stage "policy" (.string o.policy.name)
  told : ∀ d ∈ o.chunks, d.metadata.get? "signature" = some o.signature.toValue ∧
    d.metadata.get? "policy" = some (.string o.policy.name)
  answers : o.chunks.map (·.metadata.get? "compression_provenance") =
    lists.map (fun l => some (.ofNats l))
  cut : Records o "segment" "chunk_count" (.ofNat lists.flatten.length)
  given : Records o "compress" "original_count" (.ofNat lists.flatten.length)
  kept : Records o "compress" "compressed_count" (.ofNat o.chunks.length)
  merged : o.policy = .logStream →
    Records o "compress" "merged_roots" (.ofNat (lists.countP (fun l => decide (1 < l.length))))
  oversized : o.policy ≠ .logStream →
    Records o "segment" "oversized_pieces" (.ofNat (o.chunks.countP Segmenter.isOversized))

section Compressed
variable (k : Config.Compressor) (cs : List Chunk) (p : Policy)

theorem compressRecords :
    let c := Compression.compress k cs p
    c.audit.trace.get? "policy" = some (.string p.name) ∧
      c.audit.trace.get? "original_count" = some (.ofNat cs.length) ∧
      c.audit.trace.get? "compressed_count" = some (.ofNat c.chunks.length) := by
  intro c
  cases p with
  | logStream =>
    have length : c.chunks.length = (cs.zipIdx.filter (fun d =>
        (Compression.groups k.patternPrefixChars.toNat cs).any (fun g => g.root == d.2))).length :=
      List.length_map _
    rw [length]
    exact ⟨rfl, rfl, rfl⟩
  | mixedSafe | procedureDoc | technicalFormal | dataTable | proseText => exact ⟨rfl, rfl, rfl⟩

end Compressed

section Trail
variable (c : Config) (segmenter : Segmenter) (t : Text) (metadata : Option Metadata)

/- The last stage has its name under every policy; those of the others are fixed. -/
theorem auditLast : (ingest (stagesOf c segmenter) t metadata).audit? "compress" =
    some (keptOf (stagesOf c segmenter) t metadata).audit := by
  have earlier : ((ingest (stagesOf c segmenter) t metadata).auditTrail.take 4).find?
      (fun a => a.stage == "compress") = none := rfl
  have last : [(keptOf (stagesOf c segmenter) t metadata).audit].find?
      (fun a => a.stage == "compress") = some (keptOf (stagesOf c segmenter) t metadata).audit := by
    refine List.find?_cons_of_pos ?_
    rw [show (keptOf (stagesOf c segmenter) t metadata).audit.stage = "compress" from
      compressStage _ _ _]
    rfl
  show ((ingest (stagesOf c segmenter) t metadata).auditTrail.take 4 ++
    [(keptOf (stagesOf c segmenter) t metadata).audit]).find? _ = _
  rw [List.find?_append, earlier, last]
  rfl

end Trail

section Chunks
variable {s : Stages} {t : Text} {metadata : Option Metadata}

/- What decoration does not touch is in the outcome as it was behind the compressor. -/
theorem mapKept {β : Type} (f : Chunk → β)
    (same : ∀ signature policy answersFor c, f (decorate signature policy answersFor c) = f c) :
    (ingest s t metadata).chunks.map f = (keptOf s t metadata).chunks.map f := by
  refine List.ext_getElem? fun k => ?_
  rw [ingestChunks, List.getElem?_map, List.getElem?_map, List.getElem?_mapIdx, Option.map_map]
  exact congrArg (Option.map · _) (funext fun c => same _ _ _ c)

theorem countKept (q : Chunk → Bool)
    (same : ∀ signature policy answersFor c, q (decorate signature policy answersFor c) = q c) :
    (ingest s t metadata).chunks.countP q = (keptOf s t metadata).chunks.countP q := by
  have alike : (ingest s t metadata).chunks.map q = (keptOf s t metadata).chunks.map q := mapKept q same
  have counted := congrArg (List.countP id) alike
  rwa [List.countP_map, List.countP_map] at counted

theorem oversizedKept (signature : Signature) (policy : Policy) (answersFor : List Nat) (c : Chunk) :
    Segmenter.isOversized (decorate signature policy answersFor c) = Segmenter.isOversized c := by
  have told := decorateTold signature policy answersFor c
  have tagged := told.others "oversized_atom" (by decide)
  exact congrArg Option.isSome tagged

/- The chunks say what they answer for, in the order of the retained indices. -/
theorem answersTold {chars : Nat} {cut : List Chunk}
    (accounts : Compression.Accounts chars cut (keptOf s t metadata)) :
    (ingest s t metadata).chunks.map (·.metadata.get? "compression_provenance") =
      (listsOf (keptOf s t metadata)).map (fun l => some (.ofNats l)) := by
  refine listsTold ?_
  rw [← ingestLength accounts, ingestChunks, List.length_mapIdx]

end Chunks

/- What the last record says is what the compression says of itself. -/
theorem lastRecords {c : Config} {segmenter : Segmenter} {t : Text} {metadata : Option Metadata}
    {key : String} {value : Value}
    (traced : (keptOf (stagesOf c segmenter) t metadata).audit.trace.get? key = some value) :
    Records (ingest (stagesOf c segmenter) t metadata) "compress" key value := by
  rw [Records, auditLast]
  exact traced

end Intake.Pipeline
