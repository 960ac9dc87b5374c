import Intake.Proofs.Compression.Firsts
import Intake.Proofs.Pipeline.Trail

/-! Compression of what was compressed. The chunks that are kept open in different ways, and how a
chunk opens is a matter of its content; so whatever is written into their metadata, the pipeline's own
keys included, compressing them again drops nothing and puts nothing on record. -/
namespace Intake.Compression

/- A compression that left its chunks as they were. -/
structure Settled (ds : List Chunk) (c : Compression) : Prop where
  chunks : c.chunks = ds
  retained : c.retained = List.range ds.length
  provenance : c.provenance = .empty
  original : c.audit.trace.get? "original_count" = some (.ofNat ds.length)
  compressed : c.audit.trace.get? "compressed_count" = some (.ofNat ds.length)

/- Where all chunks open in different ways, each is alike to itself only. -/
theorem openApart {chars : Nat} {ds : List Chunk} (distinct : (ds.map (patternOf chars)).Nodup)
    {i j : Nat} (bound : i < ds.length) (same : patternAt chars ds i = patternAt chars ds j) :
    i = j := by
  rw [← patternsAt, ← patternsAt] at same
  exact (List.getElem?_inj (by rwa [List.length_map]) distinct).1 same

namespace Firsts
variable {chars : Nat} {ds : List Chunk} {c : Compression} (firsts : Firsts chars ds c)
  (distinct : (ds.map (patternOf chars)).Nodup)
include firsts distinct

theorem retainedAll : c.retained = List.range ds.length := by
  refine firsts.rising.eq_of_mem_iff List.pairwise_lt_range fun i => ?_
  rw [firsts.first, List.mem_range]
  refine ⟨And.left, fun bound => ⟨bound, fun j earlier same => ?_⟩⟩
  exact Nat.ne_of_gt earlier (openApart distinct bound same.symm)

theorem chunksAll : c.chunks = ds := by
  have kept := firsts.kept
  rw [retainedAll firsts distinct, rangeChunks] at kept
  exact List.map_injective_iff.2 (Option.some_injective _) kept

theorem noneRecorded : c.provenance = .empty := by
  refine Table.sameLookups fun r => Option.eq_none_iff_forall_ne_some.2 fun l recorded => ?_
  obtain ⟨-, ⟨i, alike, behind⟩, -⟩ := (firsts.recorded r l).1 recorded
  obtain ⟨inside, same⟩ := List.mem_filter.1 alike
  have one := openApart distinct (List.mem_range.1 inside) (of_decide_eq_true same)
  exact Nat.ne_of_gt behind one

end Firsts

/- Chunks with the contents of those that are kept open in different ways as well. -/
theorem contentsDistinct {chars : Nat} {cs ds : List Chunk} {p : Policy}
    (same : ds.map (·.content) = (dedup chars cs p).chunks.map (·.content)) :
    (ds.map (patternOf chars)).Nodup := by
  have opening : ∀ ks : List Chunk, ks.map (patternOf chars) =
      (ks.map (·.content)).map (fun t => t.firstLine.take chars) := by
    intro ks
    rw [List.map_map]
    rfl
  rw [opening, same, ← opening]
  exact (dedupFirsts chars cs p).distinct

theorem keptSettled (c : Config.Compressor) {cs ds : List Chunk} {p : Policy}
    (same : ds.map (·.content) = (compress c cs p).chunks.map (·.content)) :
    Settled ds (compress c ds p) := by
  obtain ⟨-, original, compressed⟩ := Pipeline.compressRecords c ds p
  have unchanged : (compress c ds p).chunks = ds ∧
      (compress c ds p).retained = List.range ds.length ∧ (compress c ds p).provenance = .empty := by
    cases p with
    | logStream =>
      have distinct := contentsDistinct same
      have firsts := dedupFirsts c.patternPrefixChars.toNat ds .logStream
      exact ⟨firsts.chunksAll distinct, firsts.retainedAll distinct, firsts.noneRecorded distinct⟩
    | mixedSafe | procedureDoc | technicalFormal | dataTable | proseText => exact ⟨rfl, rfl, rfl⟩
  obtain ⟨chunks, retained, provenance⟩ := unchanged
  rw [chunks] at compressed
  exact ⟨chunks, retained, provenance, original, compressed⟩

end Intake.Compression

namespace Intake.Pipeline
open Compression (compress Settled)

theorem survivorsSettled (c : Config.Compressor) :
    (∀ (cs ds : List Chunk) (p : Policy),
      ds.map (·.content) = (compress c cs p).chunks.map (·.content) → Settled ds (compress c ds p)) ∧
    ∀ s : Stages, s.compress = compress c → ∀ t metadata,
      let o := ingest s t metadata
      Settled o.chunks (compress c o.chunks o.policy) := by
  refine ⟨fun cs ds p same => Compression.keptSettled c same, fun s built t metadata => ?_⟩
  -- What the pipeline writes on the chunks is metadata.
  have contents : (ingest s t metadata).chunks.map (·.content) =
      (keptOf s t metadata).chunks.map (·.content) := mapKept (·.content) fun _ _ _ _ => rfl
  rw [keptOf, built] at contents
  exact Compression.keptSettled c contents

/- Of three chunks two are kept, and then a note is written on each of them. -/
def repeatedLines : List Chunk := ["a 1", "b", "a 1"].map (fun line => Chunk.of line.toList 0)

def notedLines : List Chunk :=
  (compress {} repeatedLines .logStream).chunks.map (·.withString "note" "seen")

theorem notedSettled :
    notedLines.map (·.content) = ["a 1".toList, "b".toList] ∧
    Settled notedLines (compress {} notedLines .logStream) ∧
    ∃ s, Stages.ofConfig wordSteps = .ok s ∧
      let o := ingest s "a 1\na 1\n\nb".toList none
      Settled o.chunks (compress wordSteps.compressor o.chunks o.policy) := by
  have same : notedLines.map (·.content) =
      (compress {} repeatedLines .logStream).chunks.map (·.content) := by
    rw [notedLines, List.map_map]
    rfl
  obtain ⟨s, made⟩ := wordStepsMade
  have built : s.compress = compress wordSteps.compressor := by
    obtain ⟨segmenter, -, -, rfl⟩ := stagesMade made
    rfl
  exact ⟨by decide, (survivorsSettled {}).1 repeatedLines notedLines .logStream same, s, made,
    (survivorsSettled wordSteps.compressor).2 s built _ none⟩

end Intake.Pipeline
