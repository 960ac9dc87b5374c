import Intake.Proofs.Compression.Firsts

/-! Longer prefixes. Chunks that open alike in more characters open alike in fewer, so a longer
prefix takes groups apart and merges none, and what is kept at a shorter one is kept at a longer one.
A prefix that no first line exceeds groups by the whole line. -/
namespace Intake.Compression

/- The indices of one group are those of its pattern. -/
theorem groupIndices {k : Nat} {cs : List Chunk} {g : Group} (h : g ∈ groups k cs) {i : Nat} :
    i ∈ g.indices ↔ patternAt k cs i = some g.pattern := by
  rw [(groupedPatterns (cs.map (patternOf k))).indices g h, memberIndicesOf, patternsAt]

section Shorter
variable {k k' : Nat} (shorter : k ≤ k')
include shorter

theorem patternShorter (cs : List Chunk) (i : Nat) :
    patternAt k cs i = (patternAt k' cs i).map (·.take k) := by
  rw [patternAt, patternAt, Option.map_map]
  refine congrArg (fun f => (cs[i]?).map f) (funext fun c => ?_)
  rw [Function.comp_apply, patternOf, patternOf, List.take_take, Nat.min_eq_left shorter]

theorem groupWithin {cs : List Chunk} {fine : Group} (h : fine ∈ groups k' cs) :
    ∃! coarse, coarse ∈ groups k cs ∧ fine.indices ⊆ coarse.indices := by
  have grouped := groupedPatterns (cs.map (patternOf k))
  have inside : ∀ i ∈ fine.indices, patternAt k cs i = some (fine.pattern.take k) := by
    intro i hi
    rw [patternShorter shorter, (groupIndices h).1 hi, Option.map_some]
  obtain ⟨coarse, hc, pattern, -⟩ := grouped.groupAt
    ((patternsAt k cs fine.root).trans (inside _ (rootMember fine)))
  refine ⟨coarse, ⟨hc, fun i hi => ?_⟩, fun other ⟨ho, within⟩ => ?_⟩
  · rw [groupIndices hc, pattern]
    exact inside i hi
  · refine grouped.unique ho hc (within (rootMember fine)) ?_
    rw [groupIndices hc, pattern]
    exact inside _ (rootMember fine)

/- Where a pattern comes for the first time, so does every longer one. -/
theorem rootStays {cs : List Chunk} {i : Nat} (root : i ∈ (groups k cs).map Group.root) :
    i ∈ (groups k' cs).map Group.root := by
  have coarse := groupedPatterns (cs.map (patternOf k))
  have fine := groupedPatterns (cs.map (patternOf k'))
  obtain ⟨bound, first⟩ := coarse.rootIff.1 root
  rw [List.length_map] at bound
  refine fine.rootIff.2 ⟨by rwa [List.length_map], fun j earlier alike => first j earlier ?_⟩
  rw [patternsAt, patternsAt] at alike ⊢
  rw [patternShorter shorter, alike, ← patternShorter shorter]

theorem keptMore (cs : List Chunk) (p : Policy) :
    (dedup k cs p).retained.Sublist (dedup k' cs p).retained ∧
      (dedup k cs p).chunks.Sublist (dedup k' cs p).chunks := by
  have kept : (cs.zipIdx.filter (fun c => (groups k cs).any (fun g => g.root == c.2))).Sublist
      (cs.zipIdx.filter (fun c => (groups k' cs).any (fun g => g.root == c.2))) := by
    refine List.monotone_filter_right _ fun c root => ?_
    simp only [List.any_eq_true, beq_iff_eq, ← List.mem_map] at root ⊢
    exact rootStays shorter root
  exact ⟨kept.map Prod.snd, kept.map Prod.fst⟩

end Shorter

/- Every index at which a chunk has the first line of the one at `i`. -/
def sameLine (cs : List Chunk) (i : Nat) : List Nat :=
  (List.range cs.length).filter
    (fun j => decide ((cs[j]?).map Chunk.firstLine = (cs[i]?).map Chunk.firstLine))

theorem wholeLine {k : Nat} {cs : List Chunk} (long : ∀ c ∈ cs, c.firstLine.length ≤ k) (i : Nat) :
    patternAt k cs i = (cs[i]?).map Chunk.firstLine :=
  Option.map_congr fun c hc => List.take_of_length_le (long c (List.mem_of_getElem? hc))

theorem groupsOfLines {k : Nat} {cs : List Chunk} (long : ∀ c ∈ cs, c.firstLine.length ≤ k)
    (l : List Nat) :
    l ∈ (groups k cs).map Group.indices ↔ ∃ i < cs.length, l = sameLine cs i := by
  have grouped := groupedPatterns (cs.map (patternOf k))
  have classes : ∀ i, sameLine cs i = alikeAt k cs i := fun i => by
    simp only [sameLine, alikeAt, wholeLine long]
  rw [List.mem_map]
  constructor
  · rintro ⟨g, hg, rfl⟩
    refine ⟨g.root, ?_, ?_⟩
    · have bound := grouped.bounded hg (rootMember g)
      rwa [List.length_map] at bound
    · rw [classes, groupAlike hg]
  · rintro ⟨i, bound, rfl⟩
    have here : patternAt k cs i = some (patternOf k cs[i]) := by
      rw [patternAt, List.getElem?_eq_getElem bound, Option.map_some]
    obtain ⟨g, hg, pattern, -⟩ := grouped.groupAt ((patternsAt k cs i).trans here)
    refine ⟨g, hg, ?_⟩
    rw [classes, alikeIndices here, grouped.indices g hg, pattern]

/- No two groups hold the same indices, so each class of first lines is met once. -/
theorem groupsApart (k : Nat) (cs : List Chunk) : ((groups k cs).map Group.indices).Nodup := by
  have grouped := groupedPatterns (cs.map (patternOf k))
  refine List.pairwise_map.2 ((List.pairwise_map.1 grouped.rising).imp fun {g h} less same => ?_)
  exact Nat.ne_of_lt less (List.cons.inj same).1

theorem longerPrefixSplits {c c' : Config.Compressor}
    (shorter : c.patternPrefixChars ≤ c'.patternPrefixChars) (cs : List Chunk) :
    (∀ fine ∈ groups c'.patternPrefixChars.toNat cs,
      ∃! coarse, coarse ∈ groups c.patternPrefixChars.toNat cs ∧ fine.indices ⊆ coarse.indices) ∧
    (∀ p, (compress c cs p).retained.Sublist (compress c' cs p).retained ∧
      (compress c cs p).chunks.Sublist (compress c' cs p).chunks) ∧
    ((∀ d ∈ cs, d.firstLine.length ≤ c.patternPrefixChars.toNat) →
      ((groups c.patternPrefixChars.toNat cs).map Group.indices).Nodup ∧
      ∀ l, l ∈ (groups c.patternPrefixChars.toNat cs).map Group.indices ↔
        ∃ i < cs.length, l = sameLine cs i) := by
  refine ⟨fun fine h => groupWithin shorter h, fun p => ?_, fun long =>
    ⟨groupsApart _ cs, groupsOfLines long⟩⟩
  cases p with
  | logStream => exact keptMore shorter cs .logStream
  | mixedSafe | procedureDoc | technicalFormal | dataTable | proseText =>
    exact ⟨List.Sublist.refl _, List.Sublist.refl _⟩

/- Three openings with one first letter, two of which have the second in common. -/
theorem secondLetterSplits :
    let cs := ["ab", "ac", "ab\nx"].map (fun line => Chunk.of line.toList 0)
    let one : Config.Compressor := { patternPrefixChars := 1 }
    let two : Config.Compressor := { patternPrefixChars := 2 }
    (groups 1 cs).map Group.indices = [[0, 1, 2]] ∧ (groups 2 cs).map Group.indices = [[0, 2], [1]] ∧
      (compress one cs .logStream).retained.Sublist (compress two cs .logStream).retained ∧
      ∀ l, l ∈ (groups 2 cs).map Group.indices ↔ ∃ i < cs.length, l = sameLine cs i := by
  intro cs one two
  have shorter : one.patternPrefixChars ≤ two.patternPrefixChars := by decide
  have long : ∀ d ∈ cs, d.firstLine.length ≤ two.patternPrefixChars.toNat := by decide
  have here := longerPrefixSplits (UInt64.le_refl two.patternPrefixChars) cs
  exact ⟨by decide, by decide, ((longerPrefixSplits shorter cs).2.1 .logStream).1, (here.2.2 long).2⟩

end Intake.Compression
