import Intake.Proofs.Compression.Accounts

/-! Chunks that come later. The groups of a list are still there when other chunks follow: they take
in what opens alike, in their old places, and what opens anew stands behind them. So nothing that was
kept is dropped or moved, and what a chunk answers for only grows at its end. -/
namespace Intake.Compression

namespace Group

/- More indices of its pattern are put behind those of a group. -/
def extend (indices : List Nat) (g : Group) : Group := { g with later := g.later ++ indices }

/- A group as it stands with so many chunks before the first. -/
def shift (distance : Nat) (g : Group) : Group :=
  ⟨g.pattern, distance + g.root, g.later.map (distance + ·)⟩

end Group

/- The groups `hs` of patterns `qs` that follow the patterns `ps` with groups `gs`. -/
def follow (ps qs : List Text) (gs hs : List Group) : List Group :=
  gs.map (fun g => g.extend ((indicesOf qs g.pattern).map (ps.length + ·))) ++
    (hs.filter (fun h => decide (h.pattern ∉ ps))).map (Group.shift ps.length)

section Follow
variable {ps qs : List Text} {gs hs : List Group}

theorem followPatterns : (follow ps qs gs hs).map Group.pattern =
    gs.map Group.pattern ++ (hs.map Group.pattern).filter (fun p => decide (p ∉ ps)) := by
  rw [follow, List.map_append, List.map_map, List.map_map, List.filter_map]
  rfl

theorem followRoots : (follow ps qs gs hs).map Group.root =
    gs.map Group.root ++
      ((hs.filter (fun h => decide (h.pattern ∉ ps))).map Group.root).map (ps.length + ·) := by
  rw [follow, List.map_append, List.map_map, List.map_map, List.map_map]
  rfl

variable (left : Grouped ps gs) (right : Grouped qs hs)
include left right

/- A group holds its pattern's indices on both sides; one that opens anew has none on the left. -/
theorem followIndices {k : Group} (member : k ∈ follow ps qs gs hs) :
    k.indices = indicesOf (ps ++ qs) k.pattern := by
  rcases List.mem_append.1 member with member | member
  · obtain ⟨g, hg, rfl⟩ := List.mem_map.1 member
    show g.indices ++ (indicesOf qs g.pattern).map (ps.length + ·) = indicesOf (ps ++ qs) g.pattern
    rw [indicesAppend, left.indices g hg]
  · obtain ⟨h, hh, rfl⟩ := List.mem_map.1 member
    obtain ⟨hh, fresh⟩ := List.mem_filter.1 hh
    have never : indicesOf ps h.pattern = [] := by
      refine List.eq_nil_iff_forall_not_mem.2 fun i hi => ?_
      exact of_decide_eq_true fresh (List.mem_of_getElem? (memberIndicesOf.1 hi))
    show h.indices.map (ps.length + ·) = indicesOf (ps ++ qs) h.pattern
    rw [indicesAppend, never, List.nil_append, right.indices h hh]

theorem groupedFollow : Grouped (ps ++ qs) (follow ps qs gs hs) := by
  refine ⟨fun k member => followIndices left right member, ?distinct, ?rising, ?covered⟩
  case distinct =>
    rw [followPatterns]
    refine List.nodup_append.2 ⟨left.distinct, right.distinct.filter _, ?_⟩
    -- A pattern that has a group on the left stands there, so it opens none anew.
    rintro p hp q hq rfl
    obtain ⟨g, hg, rfl⟩ := List.mem_map.1 hp
    have fresh := of_decide_eq_true (List.mem_filter.1 hq).2
    exact fresh (List.mem_of_getElem? (left.at_ hg (rootMember g)))
  case rising =>
    rw [followRoots]
    refine List.pairwise_append.2 ⟨left.rising, ?_, fun r hr r' hr' => ?_⟩
    · have kept := (List.pairwise_map.1 right.rising).filter (fun h => decide (h.pattern ∉ ps))
      exact List.pairwise_map.2 (List.pairwise_map.2 (kept.imp fun less => Nat.add_lt_add_left less _))
    · obtain ⟨g, hg, rfl⟩ := List.mem_map.1 hr
      obtain ⟨i, -, rfl⟩ := List.mem_map.1 hr'
      exact Nat.lt_of_lt_of_le (left.bounded hg (rootMember g)) (Nat.le_add_right _ _)
  case covered =>
    intro p hp
    rw [followPatterns, List.mem_append]
    by_cases known : p ∈ ps
    · exact .inl (left.covered p known)
    · have late := (List.mem_append.1 hp).resolve_left known
      exact .inr (List.mem_filter.2 ⟨right.covered p late, by simpa using known⟩)

end Follow

theorem groupsAppend (chars : Nat) (xs ys : List Chunk) :
    groups chars (xs ++ ys) =
      follow (xs.map (patternOf chars)) (ys.map (patternOf chars)) (groups chars xs)
        (groups chars ys) := by
  have whole := groupedPatterns ((xs ++ ys).map (patternOf chars))
  rw [List.map_append] at whole
  have joined := groupedFollow (groupedPatterns (xs.map (patternOf chars)))
    (groupedPatterns (ys.map (patternOf chars)))
  rw [groups, List.map_append]
  exact whole.only joined

/- What was kept of a list, when others come behind it. -/
structure Stays (c d : Compression) : Prop where
  retained : c.retained <+: d.retained
  chunks : c.chunks <+: d.chunks
  answers : ∀ r ∈ c.retained, answersFor c.provenance r <+: answersFor d.provenance r
  recorded : ∀ r l, c.provenance.get? r = some l → l <+: answersFor d.provenance r

theorem retainedStay (chars : Nat) (xs ys : List Chunk) (p : Policy) :
    (dedup chars xs p).retained <+: (dedup chars (xs ++ ys) p).retained := by
  rw [dedupRetained, dedupRetained, groupsAppend, followRoots]
  exact List.prefix_append _ _

/- The chunks at the indices that stay are those they were. -/
theorem chunksStay (chars : Nat) (xs ys : List Chunk) (p : Policy) :
    (dedup chars xs p).chunks <+: (dedup chars (xs ++ ys) p).chunks := by
  obtain ⟨more, retained⟩ := retainedStay chars xs ys p
  have before : (dedup chars xs p).retained.map ((xs ++ ys)[·]?) =
      (dedup chars xs p).retained.map (xs[·]?) := by
    refine List.map_congr_left fun r hr => ?_
    obtain ⟨g, hg, rfl⟩ := memberRetained.1 hr
    have bound := (groupedPatterns (xs.map (patternOf chars))).bounded hg (rootMember g)
    rw [List.length_map] at bound
    exact List.getElem?_append_left bound
  have kept := dedupKept chars (xs ++ ys) p
  rw [← retained, List.map_append, before, ← dedupKept] at kept
  obtain ⟨first, rest, whole, same, -⟩ := List.map_eq_append_iff.1 kept
  rw [whole, List.map_injective_iff.2 (Option.some_injective _) same]
  exact List.prefix_append _ _

/- A group answers for what it held before and for more behind that. -/
theorem answersStay {chars : Nat} {xs : List Chunk} {g : Group} (h : g ∈ groups chars xs)
    (ys : List Chunk) (p : Policy) :
    g.indices <+: answersFor (dedup chars (xs ++ ys) p).provenance g.root := by
  let later := (indicesOf (ys.map (patternOf chars)) g.pattern).map ((xs.map (patternOf chars)).length + ·)
  have extended : g.extend later ∈ groups chars (xs ++ ys) := by
    rw [groupsAppend]
    exact List.mem_append_left _ (List.mem_map.2 ⟨g, h, rfl⟩)
  have answers : answersFor (dedup chars (xs ++ ys) p).provenance g.root = g.indices ++ later :=
    answersRoot (groupedPatterns ((xs ++ ys).map (patternOf chars))) extended
  rw [answers]
  exact List.prefix_append _ _

theorem dedupStays (chars : Nat) (xs ys : List Chunk) (p : Policy) :
    Stays (dedup chars xs p) (dedup chars (xs ++ ys) p) := by
  have grouped := groupedPatterns (xs.map (patternOf chars))
  refine ⟨retainedStay chars xs ys p, chunksStay chars xs ys p, fun r hr => ?_, fun r l recorded => ?_⟩
  · obtain ⟨g, hg, rfl⟩ := memberRetained.1 hr
    have answers : answersFor (dedup chars xs p).provenance g.root = g.indices := answersRoot grouped hg
    rw [answers]
    exact answersStay hg ys p
  · obtain ⟨g, hg, -, rfl, rfl⟩ := (provenanceIff grouped).1 recorded
    exact answersStay hg ys p

theorem laterChunksFollow (c : Config.Compressor) (xs ys : List Chunk) :
    let pattern := patternOf c.patternPrefixChars.toNat
    groups c.patternPrefixChars.toNat (xs ++ ys) =
        follow (xs.map pattern) (ys.map pattern) (groups c.patternPrefixChars.toNat xs)
          (groups c.patternPrefixChars.toNat ys) ∧
      Stays (compress c xs .logStream) (compress c (xs ++ ys) .logStream) :=
  ⟨groupsAppend _ xs ys, dedupStays _ xs ys .logStream⟩

end Intake.Compression
