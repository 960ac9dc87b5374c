import Intake.Pipeline
import Intake.Proofs.Compression.Accounts
import Intake.Proofs.Segment.Lossless

/-! Provenance. Every chunk of an outcome is one that was cut from the normalized text, and it
says which of them it stands for; together the chunks stand for all that were cut. -/
namespace Intake.Pipeline

def addedKeys : List String := ["signature", "policy", "ingest_version", "compression_provenance"]

/- A chunk that is as it was, but for what it was told. -/
structure Told (signature : Signature) (policy : Policy) (answersFor : List Nat) (c d : Chunk) :
    Prop where
  content : d.content = c.content
  offset : d.offset = c.offset
  length : d.length = c.length
  others : ∀ key, key ∉ addedKeys → d.metadata.get? key = c.metadata.get? key
  signature : d.metadata.get? "signature" = some signature.toValue
  policy : d.metadata.get? "policy" = some (.string policy.name)
  version : d.metadata.get? "ingest_version" = some (.string version)
  provenance : d.metadata.get? "compression_provenance" = some (.ofNats answersFor)

theorem getWithMeta (c : Chunk) (key : String) (value : Json.Value) (canonical : value.Canonical)
    (k : String) : (c.withMeta key value canonical).metadata.get? k =
      if k = key then some value else c.metadata.get? k := by
  rw [Chunk.withMeta, Metadata.getSet]
  by_cases same : k = key
  · subst same; simp
  · simp [same]

theorem decorateTold (signature : Signature) (policy : Policy) (answersFor : List Nat) (c : Chunk) :
    Told signature policy answersFor c (decorate signature policy answersFor c) := by
  refine ⟨rfl, rfl, rfl, fun key other => ?_, ?_, ?_, ?_, ?_⟩
  · simp only [addedKeys, List.mem_cons, List.not_mem_nil, or_false, not_or] at other
    obtain ⟨signature, policy, version, provenance⟩ := other
    simp only [decorate, Chunk.withString, getWithMeta, if_neg signature, if_neg policy,
      if_neg version, if_neg provenance]
  all_goals simp [decorate, Chunk.withString, getWithMeta]

/- The indices that the chunks of an outcome stand for, against the chunks that were cut. -/
structure Accounted (chars : Nat) (t : Text) (cut : List Chunk) (o : Outcome)
    (lists : List (List Nat)) : Prop where
  counted : (o.audit? "segment").bind (·.trace.get? "chunk_count") = some (.ofNat cut.length)
  exact : ∀ d ∈ o.chunks, t.Within d.span ∧ t.slice d.span = d.content
  apart : o.chunks.Pairwise (fun a b => a.offset < b.offset ∧ a.offset + a.length ≤ b.offset)
  length : lists.length = o.chunks.length
  complete : lists.flatten.Perm (List.range cut.length)
  ascending : ∀ l ∈ lists, l.Pairwise (· < ·)
  rising : lists.Pairwise (fun a b => ∀ x ∈ a.head?, ∀ y ∈ b.head?, x < y)
  told : ∀ (k : Nat) d, o.chunks[k]? = some d → ∃ (root : Nat) (later : List Nat) (c : Chunk),
    lists[k]? = some (root :: later) ∧ cut[root]? = some c ∧
    Told o.signature o.policy (root :: later) c d ∧
    ∀ i ∈ later, ∃ x : Chunk, cut[i]? = some x ∧ x.firstLine.take chars = c.firstLine.take chars
  single : o.policy ≠ .logStream →
    lists = (List.range cut.length).map (fun i => [i]) ∧ o.chunks.length = cut.length

section Ingest
variable {s : Stages} {t : Text} {metadata : Option Metadata}

def keptOf (s : Stages) (t : Text) (metadata : Option Metadata) : Compression :=
  let o := ingest s t metadata
  s.compress (s.segment (s.normalize t metadata).1 o.policy o.signature).1 o.policy

theorem ingestChunks : (ingest s t metadata).chunks =
    (keptOf s t metadata).chunks.mapIdx (fun i c =>
      decorate (ingest s t metadata).signature (ingest s t metadata).policy
        (answers (keptOf s t metadata) i) c) := rfl

theorem chunkTold {d : Chunk} (member : d ∈ (ingest s t metadata).chunks) : ∃ answersFor c,
    Told (ingest s t metadata).signature (ingest s t metadata).policy answersFor c d := by
  rw [ingestChunks, List.mem_mapIdx] at member
  obtain ⟨k, inside, rfl⟩ := member
  exact ⟨_, _, decorateTold _ _ _ _⟩

def listsOf (c : Compression) : List (List Nat) :=
  c.retained.map (Compression.answersFor c.provenance)

/- Where every chunk has an index, the chunks say what their indices answer for, in that order. -/
theorem listsTold
    (counted : (keptOf s t metadata).retained.length = (keptOf s t metadata).chunks.length) :
    (ingest s t metadata).chunks.map (·.metadata.get? "compression_provenance") =
      (listsOf (keptOf s t metadata)).map (fun l => some (.ofNats l)) := by
  refine List.ext_getElem (by simp [ingestChunks, listsOf, counted]) fun k _ within => ?_
  have retained : k < (keptOf s t metadata).retained.length := by simpa [listsOf] using within
  have answer : answers (keptOf s t metadata) k = Compression.answersFor
      (keptOf s t metadata).provenance (keptOf s t metadata).retained[k] := by
    rw [answers, List.getElem?_eq_getElem retained, Option.getD_some]
  simp only [ingestChunks, listsOf, List.getElem_map, List.getElem_mapIdx, answer]
  exact (decorateTold _ _ _ _).provenance

/- The chunk at a position is the one at the index retained there, told what that answers for. -/
theorem ingestTold {chars : Nat} {cut : List Chunk}
    (accounts : Compression.Accounts chars cut (keptOf s t metadata)) {k : Nat} {d : Chunk}
    (at_ : (ingest s t metadata).chunks[k]? = some d) :
    ∃ root later c, (keptOf s t metadata).retained[k]? = some root ∧
      (listsOf (keptOf s t metadata))[k]? = some (root :: later) ∧ cut[root]? = some c ∧
      Told (ingest s t metadata).signature (ingest s t metadata).policy (root :: later) c d ∧
      ∀ i ∈ later, ∃ x, cut[i]? = some x ∧ x.firstLine.take chars = c.firstLine.take chars := by
  rw [ingestChunks, List.getElem?_mapIdx, Option.map_eq_some_iff] at at_
  obtain ⟨c, kept, rfl⟩ := at_
  have same := congrArg (·[k]?) accounts.kept
  simp only [List.getElem?_map, kept, Option.map_some] at same
  obtain ⟨root, retained, here⟩ := Option.map_eq_some_iff.1 same.symm
  obtain ⟨later, answer, -, alike⟩ := accounts.alike root (List.mem_of_getElem? retained)
  have told : answers (keptOf s t metadata) k = root :: later := by
    rw [answers, retained, Option.getD_some, answer]
  refine ⟨root, later, c, retained, ?_, here, told ▸ decorateTold _ _ _ c, fun i hi => ?_⟩
  · rw [listsOf, List.getElem?_map, retained, Option.map_some, answer]
  · have pattern := alike i hi
    rw [here, Option.map_some] at pattern
    exact Option.map_eq_some_iff.1 pattern

theorem ingestLength {chars : Nat} {cut : List Chunk}
    (accounts : Compression.Accounts chars cut (keptOf s t metadata)) :
    (ingest s t metadata).chunks.length = (keptOf s t metadata).retained.length := by
  have lengths := congrArg List.length accounts.kept
  simpa [ingestChunks] using lengths

/- What leaves the pipeline stands in the text where it was cut, in the same order. -/
theorem ingestApart {chars : Nat} {u : Text} {cut : List Chunk} (lossless : Lossless u cut)
    (accounts : Compression.Accounts chars cut (keptOf s t metadata)) :
    (∀ d ∈ (ingest s t metadata).chunks, u.Within d.span ∧ u.slice d.span = d.content) ∧
    (ingest s t metadata).chunks.Pairwise
      (fun a b => a.offset < b.offset ∧ a.offset + a.length ≤ b.offset) := by
  constructor
  · intro d hd
    obtain ⟨k, at_⟩ := List.getElem?_of_mem hd
    obtain ⟨root, later, c, -, -, here, told, -⟩ := ingestTold accounts at_
    obtain ⟨within, slice, -⟩ := lossless.exact c (List.mem_of_getElem? here)
    have span : d.span = c.span := by rw [Chunk.span, Chunk.span, told.offset, told.length]
    rw [span, told.content]
    exact ⟨within, slice⟩
  · refine List.pairwise_iff_getElem.2 fun i j hi hj earlier => ?_
    obtain ⟨root, _, c, first, -, here, told, -⟩ :=
      ingestTold accounts (List.getElem?_eq_getElem hi)
    obtain ⟨root', _, c', second, -, here', told', -⟩ :=
      ingestTold accounts (List.getElem?_eq_getElem hj)
    obtain ⟨hk, rfl⟩ := List.getElem?_eq_some_iff.1 first
    obtain ⟨hk', rfl⟩ := List.getElem?_eq_some_iff.1 second
    have rising := List.pairwise_iff_getElem.1 accounts.rising i j hk hk' earlier
    obtain ⟨inside, rfl⟩ := List.getElem?_eq_some_iff.1 here
    obtain ⟨inside', rfl⟩ := List.getElem?_eq_some_iff.1 here'
    rw [told.offset, told.length, told'.offset]
    exact ⟨List.pairwise_iff_getElem.1 lossless.ascending _ _ inside inside' rising,
      List.pairwise_iff_getElem.1 lossless.apart _ _ inside inside' rising⟩

end Ingest

def stagesOf (c : Config) (segmenter : Segmenter) : Stages where
  normalize := Normalization.run
  detect := Detector.detect c.detector
  select := Selection.select c.selector
  segment := segmenter.segment
  compress := Compression.compress c.compressor

/- A configuration is made into stages when it passes its check and its patterns compile. -/
theorem stagesMade {c : Config} {s : Stages} (made : Stages.ofConfig c = .ok s) :
    ∃ segmenter, c.check = .ok () ∧ Segmenter.ofConfig c.segmenter = .ok segmenter ∧
      s = stagesOf c segmenter := by
  unfold Stages.ofConfig at made
  cases checked : c.check with
  | error fault => rw [checked] at made; cases made
  | ok =>
    cases compiled : Segmenter.ofConfig c.segmenter with
    | error fault => rw [checked, compiled] at made; cases made
    | ok segmenter =>
      rw [checked, compiled] at made
      cases made
      exact ⟨segmenter, rfl, rfl, rfl⟩

theorem countOfSegments (s : Segmenter) (t : Text) (p : Policy) (signature : Signature) :
    (s.audit t p signature).trace.get? "chunk_count" = some (.ofNat (s.chunks t p).length) := rfl

/- The default sizes and thresholds with steps that are marked by a word. -/
def wordSteps : Config := { segmenter := { stepPattern := "Step" } }

theorem wordStepsMade : ∃ s, Stages.ofConfig wordSteps = .ok s := by
  have compiled : (Pattern.read wordSteps.segmenter.stepPattern.toList).isSome = true := by
    decide +kernel
  obtain ⟨marker, read⟩ := Option.isSome_iff_exists.1 compiled
  have segmenter : Segmenter.ofConfig wordSteps.segmenter =
      .ok ⟨wordSteps.segmenter, marker.matcher, []⟩ := by
    rw [Segmenter.ofConfig, read]; rfl
  have checked : wordSteps.check = .ok () := rfl
  refine ⟨stagesOf wordSteps ⟨wordSteps.segmenter, marker.matcher, []⟩, ?_⟩
  rw [Stages.ofConfig, segmenter, checked]
  rfl

end Intake.Pipeline
