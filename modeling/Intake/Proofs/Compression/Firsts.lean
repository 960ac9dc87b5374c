import Intake.Proofs.Compression.Accounts

/-! What deduplication leaves. Of the chunks that open alike the first is kept as it is and the
others are dropped; on record are all indices of those that were found more than once. Which chunks
are kept, in which order, and what is on record follows from the patterns alone. -/
namespace Intake.Compression

/- The pattern of the chunk at an index, where there is one. -/
def patternAt (chars : Nat) (cs : List Chunk) (i : Nat) : Option Text :=
  (cs[i]?).map (patternOf chars)

/- Every index at which a chunk opens like the one at `i`. -/
def alikeAt (chars : Nat) (cs : List Chunk) (i : Nat) : List Nat :=
  (List.range cs.length).filter (fun j => decide (patternAt chars cs j = patternAt chars cs i))

structure Firsts (chars : Nat) (cs : List Chunk) (c : Compression) : Prop where
  first : ∀ i, i ∈ c.retained ↔
    i < cs.length ∧ ∀ j < i, patternAt chars cs j ≠ patternAt chars cs i
  rising : c.retained.Pairwise (· < ·)
  kept : c.chunks.map some = c.retained.map (cs[·]?)
  recorded : ∀ r l, c.provenance.get? r = some l ↔
    r ∈ c.retained ∧ (∃ i ∈ alikeAt chars cs r, r < i) ∧ l = alikeAt chars cs r
  headed : ∀ r ∈ c.retained, (alikeAt chars cs r).head? = some r
  parts : (c.retained.flatMap (answersFor c.provenance)).Perm (List.range cs.length)
  distinct : (c.chunks.map (patternOf chars)).Nodup

theorem patternsAt (chars : Nat) (cs : List Chunk) (i : Nat) :
    (cs.map (patternOf chars))[i]? = patternAt chars cs i := List.getElem?_map

theorem alikeIndices {chars : Nat} {cs : List Chunk} {i : Nat} {p : Text}
    (here : patternAt chars cs i = some p) :
    alikeAt chars cs i = indicesOf (cs.map (patternOf chars)) p := by
  simp only [alikeAt, indicesOf, List.length_map, patternsAt, here]

/- A group holds the indices of all that open like its root. -/
theorem groupAlike {chars : Nat} {cs : List Chunk} {g : Group} (h : g ∈ groups chars cs) :
    alikeAt chars cs g.root = g.indices := by
  have grouped := groupedPatterns (cs.map (patternOf chars))
  have here : patternAt chars cs g.root = some g.pattern := by
    rw [← patternsAt]
    exact grouped.at_ h (rootMember g)
  rw [alikeIndices here, grouped.indices g h]

/- The chunks that are kept have the patterns of the groups. -/
theorem dedupPatterns (chars : Nat) (cs : List Chunk) (p : Policy) :
    (dedup chars cs p).chunks.map (patternOf chars) = (groups chars cs).map Group.pattern := by
  have grouped := groupedPatterns (cs.map (patternOf chars))
  have opening := congrArg (List.map (Option.map (patternOf chars))) (dedupKept chars cs p)
  rw [dedupRetained, List.map_map, List.map_map, List.map_map] at opening
  refine List.map_injective_iff.2 (Option.some_injective _) ?_
  rw [List.map_map, List.map_map]
  refine Eq.trans opening (List.map_congr_left fun g hg => ?_)
  have here := grouped.at_ hg (rootMember g)
  rwa [patternsAt] at here

/- What is on record is on record for a root that is not alone. -/
theorem dedupRecorded (chars : Nat) (cs : List Chunk) (p : Policy) (r : Nat) (l : List Nat) :
    (dedup chars cs p).provenance.get? r = some l ↔
      r ∈ (dedup chars cs p).retained ∧ (∃ i ∈ alikeAt chars cs r, r < i) ∧
        l = alikeAt chars cs r := by
  have grouped := groupedPatterns (cs.map (patternOf chars))
  have onRecord : (dedup chars cs p).provenance.get? r = some l ↔
      ∃ g ∈ groups chars cs, g.later ≠ [] ∧ g.root = r ∧ g.indices = l := provenanceIff grouped
  rw [onRecord, memberRetained]
  constructor
  · rintro ⟨g, hg, some, rfl, rfl⟩
    obtain ⟨i, later⟩ := List.exists_mem_of_ne_nil g.later some
    have behind := (List.pairwise_cons.1 (grouped.ascending hg)).1 i later
    refine ⟨⟨g, hg, rfl⟩, ⟨i, ?_, behind⟩, (groupAlike hg).symm⟩
    rw [groupAlike hg]
    exact List.mem_cons_of_mem _ later
  · rintro ⟨⟨g, hg, rfl⟩, ⟨i, member, behind⟩, rfl⟩
    rw [groupAlike hg] at member ⊢
    have later : i ∈ g.later := (List.mem_cons.1 member).resolve_left (Nat.ne_of_gt behind)
    exact ⟨g, hg, List.ne_nil_of_mem later, rfl, rfl⟩

theorem dedupFirsts (chars : Nat) (cs : List Chunk) (p : Policy) :
    Firsts chars cs (dedup chars cs p) := by
  have grouped := groupedPatterns (cs.map (patternOf chars))
  have accounts := dedupAccounts chars cs p
  refine ⟨?first, accounts.rising, accounts.kept, dedupRecorded chars cs p, ?headed,
    accounts.complete, ?distinct⟩
  case first =>
    intro i
    rw [dedupRetained]
    have root := grouped.rootIff (i := i)
    simp only [patternsAt, List.length_map] at root
    exact root
  case headed =>
    intro r member
    obtain ⟨g, hg, rfl⟩ := memberRetained.1 member
    rw [groupAlike hg]
    rfl
  case distinct =>
    rw [dedupPatterns]
    exact grouped.distinct

/- Only the chunks of a log are deduplicated; under any other policy they pass as they came. -/
theorem firstsKept (c : Config.Compressor) (cs : List Chunk) :
    Firsts c.patternPrefixChars.toNat cs (compress c cs .logStream) ∧
      ∀ p, p ≠ .logStream → (compress c cs p).chunks = cs ∧
        (compress c cs p).retained = List.range cs.length ∧ (compress c cs p).provenance = .empty := by
  refine ⟨dedupFirsts _ cs .logStream, fun p other => ?_⟩
  rw [compressOther c cs other]
  exact ⟨rfl, rfl, rfl⟩

/- Five chunks of three openings, two of which come back. -/
theorem returningOpeningsKept :
    let cs := ["c 1", "a\nx", "c 1\ny", "b", "a"].map (fun line => Chunk.of line.toList 0)
    (compress {} cs .logStream).retained = [0, 1, 3] ∧
      Firsts 40 cs (compress {} cs .logStream) ∧ (compress {} cs .proseText).chunks = cs :=
  ⟨by decide, (firstsKept {} _).1, ((firstsKept {} _).2 .proseText (by decide)).1⟩

end Intake.Compression
