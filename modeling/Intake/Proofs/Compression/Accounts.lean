import Intake.Proofs.Compression.Groups
import Intake.Proofs.Table

/-! What compression accounts for. The chunks kept are those at the retained indices; each
answers for itself and for later ones that open alike, and together they answer for all. -/
namespace Intake.Compression

structure Accounts (chars : Nat) (cs : List Chunk) (c : Compression) : Prop where
  kept : c.chunks.map some = c.retained.map (cs[·]?)
  rising : c.retained.Pairwise (· < ·)
  complete : (c.retained.flatMap (answersFor c.provenance)).Perm (List.range cs.length)
  alike : ∀ r ∈ c.retained, ∃ later, answersFor c.provenance r = r :: later ∧
    (r :: later).Pairwise (· < ·) ∧
    ∀ i ∈ later, (cs[i]?).map (patternOf chars) = (cs[r]?).map (patternOf chars)

theorem provenanceEntries {ps : List Text} {gs : List Group} (grouped : Grouped ps gs) :
    (provenanceOf gs).entries =
      (gs.filter (fun g => !g.later.isEmpty)).map (fun g => (g.root, g.indices)) := by
  have ascending : ((gs.filter (fun g => !g.later.isEmpty)).map
      (fun g => (g.root, g.indices))).Pairwise (fun a b => compare a.1 b.1 = .lt) := by
    have rising := List.pairwise_map.1 grouped.rising
    exact List.pairwise_map.2 ((rising.filter _).imp fun less => Nat.compare_eq_lt.2 less)
  exact congrArg Table.entries (Table.ofListAscending ascending)

/- The groups on record are those of more than the root. -/
theorem provenanceIff {ps : List Text} {gs : List Group} (grouped : Grouped ps gs) {r : Nat}
    {l : List Nat} : (provenanceOf gs).get? r = some l ↔
      ∃ g ∈ gs, g.later ≠ [] ∧ g.root = r ∧ g.indices = l := by
  rw [Table.getSome, provenanceEntries grouped, List.mem_map]
  simp only [List.mem_filter, Bool.not_eq_true', List.isEmpty_eq_false_iff, Prod.mk.injEq, and_assoc]

/- A root answers for its group. -/
theorem answersRoot {ps : List Text} {gs : List Group} (grouped : Grouped ps gs) {g : Group}
    (h : g ∈ gs) : answersFor (provenanceOf gs) g.root = g.indices := by
  unfold answersFor
  by_cases alone : g.later = []
  · have absent : (provenanceOf gs).get? g.root = none := by
      refine Option.eq_none_iff_forall_ne_some.2 fun l recorded => ?_
      obtain ⟨g', h', some, root, -⟩ := (provenanceIff grouped).1 recorded
      have one : g' = g := grouped.unique h' h (rootMember g') (root ▸ rootMember g)
      exact some (one ▸ alone)
    rw [absent, Option.getD_none, Group.indices, alone]
  · rw [(provenanceIff grouped).2 ⟨g, h, alone, rfl, rfl⟩, Option.getD_some]

theorem dedupRetained (chars : Nat) (cs : List Chunk) (p : Policy) :
    (dedup chars cs p).retained = (groups chars cs).map Group.root := by
  have grouped := groupedPatterns (cs.map (patternOf chars))
  have indices : cs.zipIdx.map Prod.snd = List.range cs.length := by
    rw [List.zipIdx_map_snd, List.range_eq_range']
  have filtered : (dedup chars cs p).retained =
      (cs.zipIdx.map Prod.snd).filter (fun i => (groups chars cs).any (fun g => g.root == i)) := by
    rw [List.filter_map]; rfl
  rw [filtered, indices, ← List.length_map (patternOf chars)]
  exact grouped.roots

theorem memberRetained {chars : Nat} {cs : List Chunk} {p : Policy} {r : Nat} :
    r ∈ (dedup chars cs p).retained ↔ ∃ g ∈ groups chars cs, g.root = r := by
  rw [dedupRetained, List.mem_map]

theorem dedupKept (chars : Nat) (cs : List Chunk) (p : Policy) :
    (dedup chars cs p).chunks.map some = (dedup chars cs p).retained.map (cs[·]?) := by
  simp only [dedup, List.map_map]
  refine List.map_congr_left fun c hc => ?_
  exact (List.mem_zipIdx_iff_getElem?.1 (List.mem_filter.1 hc).1).symm

theorem dedupAccounts (chars : Nat) (cs : List Chunk) (p : Policy) :
    Accounts chars cs (dedup chars cs p) := by
  have grouped := groupedPatterns (cs.map (patternOf chars))
  have provenance : (dedup chars cs p).provenance = provenanceOf (groups chars cs) := rfl
  have answers : ∀ g ∈ groups chars cs,
      answersFor (dedup chars cs p).provenance g.root = g.indices := fun g hg => by
    rw [provenance]; exact answersRoot grouped hg
  refine ⟨dedupKept chars cs p, ?_, ?_, ?_⟩
  · rw [dedupRetained]
    exact grouped.rising
  · have flat : (dedup chars cs p).retained.flatMap (answersFor (dedup chars cs p).provenance) =
        (groups chars cs).flatMap Group.indices := by
      rw [dedupRetained, List.flatMap_map, List.flatMap_def, List.flatMap_def]
      exact congrArg List.flatten (List.map_congr_left answers)
    have complete := grouped.complete
    rw [List.length_map] at complete
    rw [flat]
    exact complete
  · intro r hr
    obtain ⟨g, hg, rfl⟩ := memberRetained.1 hr
    refine ⟨g.later, answers g hg, grouped.ascending hg, fun i hi => ?_⟩
    have here := grouped.at_ hg (rootMember g)
    have there := grouped.at_ hg (List.mem_cons_of_mem g.root hi)
    rw [List.getElem?_map] at here there
    rw [here, there]

theorem rangeChunks (cs : List Chunk) : (List.range cs.length).map (cs[·]?) = cs.map some := by
  refine List.ext_getElem? fun i => ?_
  simp only [List.getElem?_map]
  rcases Nat.lt_or_ge i cs.length with inside | beyond
  · rw [List.getElem?_range inside, Option.map_some, List.getElem?_eq_getElem inside]
    rfl
  · rw [List.getElem?_eq_none beyond, List.getElem?_eq_none (by simpa using beyond)]
    rfl

theorem passthroughAccounts (chars : Nat) (cs : List Chunk) (p : Policy) :
    Accounts chars cs (passthrough cs p) := by
  have single : (List.range cs.length).flatMap (answersFor .empty) = List.range cs.length := by
    have answers : answersFor .empty = fun i => [i] := rfl
    rw [answers, List.flatMap_singleton']
  exact ⟨(rangeChunks cs).symm, List.pairwise_lt_range, by rw [passthrough, single],
    fun r _ => ⟨[], rfl, by simp, by simp⟩⟩

theorem compressOther (c : Config.Compressor) (cs : List Chunk) {p : Policy} (other : p ≠ .logStream) :
    compress c cs p = passthrough cs p := by
  cases p with
  | logStream => exact absurd rfl other
  | mixedSafe | procedureDoc | technicalFormal | dataTable | proseText => rfl

theorem compressAccounts (c : Config.Compressor) (cs : List Chunk) (p : Policy) :
    Accounts c.patternPrefixChars.toNat cs (compress c cs p) := by
  unfold compress
  split
  · exact dedupAccounts _ cs _
  · exact passthroughAccounts _ cs _

/- The groups of which more than the root stands in a list are those that were merged. -/
theorem dedupMerged (chars : Nat) (cs : List Chunk) (p : Policy) :
    let c := dedup chars cs p
    c.provenance.size =
      (c.retained.map (answersFor c.provenance)).countP (fun l => decide (1 < l.length)) := by
  intro c
  have grouped := groupedPatterns (cs.map (patternOf chars))
  have lists : c.retained.map (answersFor c.provenance) = (groups chars cs).map Group.indices := by
    rw [dedupRetained, List.map_map]
    exact List.map_congr_left fun g hg => answersRoot grouped hg
  have merged : c.provenance.size =
      ((groups chars cs).filter (fun g => !g.later.isEmpty)).length :=
    (congrArg List.length (provenanceEntries grouped)).trans (List.length_map _)
  rw [lists, List.countP_map, merged, ← List.countP_eq_length_filter]
  refine List.countP_congr fun g _ => ?_
  simp [Group.indices, List.length_pos_iff]

end Intake.Compression
