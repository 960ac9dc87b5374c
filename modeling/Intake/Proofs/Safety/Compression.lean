import Intake.Proofs.Compression.Groups
import Intake.Proofs.Safety.Checked

/-! Compression, checked. While groups are found, a table says at which place the group of a pattern
stands, and that place is one of the list of groups; every root is the first of its indices and an
index of a chunk, so the flags that say which chunks are kept are there to be set and to be read. -/
namespace Intake.Compression
open Checked (entry store ratio entryOk storeOk ratioOk okBind)

/- The groups that were found so far, each a pattern and its indices, and the place of each. -/
structure Slots where
  places : Table Text Nat
  groups : List (Text × List Nat)

def Slots.add (s : Slots) (pattern : Text) (index : Nat) : Checked Slots :=
  match s.places.get? pattern with
  | some place => do
    let g ← entry s.groups place
    let groups ← store s.groups place (g.1, g.2 ++ [index])
    .ok { s with groups := groups }
  | none => .ok ⟨s.places.set pattern s.groups.length, s.groups ++ [(pattern, [index])]⟩

def checkedGroups (s : Slots) : List (Text × Nat) → Checked Slots
  | [] => .ok s
  | p :: rest => do
    let s ← s.add p.1 p.2
    checkedGroups s rest

/- Which chunks are kept so far, and what the roots among them answer for. -/
structure Roots where
  keep : List Bool
  provenance : Provenance

/- No chunk is kept at first. -/
def Roots.start (n : Nat) : Roots := ⟨List.replicate n false, .empty⟩

def Roots.mark (r : Roots) (indices : List Nat) : Checked Roots := do
  let root ← entry indices 0
  let keep ← store r.keep root true
  if 1 < indices.length then do
    let root ← entry indices 0
    .ok ⟨keep, r.provenance.set root indices⟩
  else .ok ⟨keep, r.provenance⟩

def checkedRoots (r : Roots) : List (List Nat) → Checked Roots
  | [] => .ok r
  | indices :: rest => do
    let r ← r.mark indices
    checkedRoots r rest

def checkedKept (keep : List Bool) : List (Chunk × Nat) → Checked (List (Chunk × Nat))
  | [] => .ok []
  | c :: rest => do
    let here ← entry keep c.2
    let later ← checkedKept keep rest
    .ok (if here then c :: later else later)

def checkedRatio (kept total : Nat) : Checked Float :=
  if total = 0 then .ok 1.0 else ratio kept total

def checkedDedup (chars : Nat) (chunks : List Chunk) (p : Policy) : Checked Compression := do
  let slots ← checkedGroups ⟨.empty, []⟩ (chunks.map (patternOf chars)).zipIdx
  let roots ← checkedRoots (.start chunks.length) (slots.groups.map (·.2))
  let kept ← checkedKept roots.keep chunks.zipIdx
  let ratio ← checkedRatio kept.length chunks.length
  .ok
    { chunks := kept.map (·.1)
      provenance := roots.provenance
      retained := kept.map (·.2)
      audit := ⟨"compress", "pattern_dedup",
        ((((Metadata.empty.setString "policy" p.name).setNat
          "original_count" chunks.length).setNat
          "compressed_count" kept.length).set
          "ratio" (.ofFloat ratio) (Json.Value.canonicalOfFloat _)).setNat
          "merged_roots" roots.provenance.size⟩ }

def checkedCompress (c : Config.Compressor) (chunks : List Chunk) (p : Policy) : Checked Compression :=
  match p with
  | .logStream => checkedDedup c.patternPrefixChars.toNat chunks p
  | _ => .ok (passthrough chunks p)

/- The places are those at which the patterns of the groups stand. -/
structure Placed (gs : List Group) (s : Slots) : Prop where
  groups : s.groups = gs.map (fun g => (g.pattern, g.indices))
  places : ∀ p place, s.places.get? p = some place ↔ (gs.map Group.pattern)[place]? = some p

theorem placedNone : Placed [] ⟨.empty, []⟩ := ⟨rfl, fun p place => by simp⟩

/- A pattern that was met has its place, and the group that stands there takes the index. -/
theorem addMet {before after : List Group} {g : Group} {s : Slots} (index : Nat)
    (placed : Placed (before ++ g :: after) s) :
    ∃ s', s.add g.pattern index = .ok s' ∧
      Placed (before ++ { g with later := g.later ++ [index] } :: after) s' := by
  have stands : ((before ++ g :: after).map Group.pattern)[before.length]? = some g.pattern := by
    simp
  have place : s.places.get? g.pattern = some before.length := (placed.places _ _).2 stands
  have here : s.groups[before.length]? = some (g.pattern, g.indices) := by
    rw [placed.groups]; simp
  have inside : before.length < s.groups.length := (List.getElem?_eq_some_iff.1 here).1
  refine ⟨{ s with groups := s.groups.set before.length (g.pattern, g.indices ++ [index]) }, ?_, ?_, ?_⟩
  · simp only [Slots.add, place, entryOk here, okBind, storeOk inside]
  · rw [placed.groups]
    simp [Group.indices]
  · intro p at_
    have patterns : (before ++ { g with later := g.later ++ [index] } :: after).map Group.pattern =
        (before ++ g :: after).map Group.pattern := by simp
    rw [patterns]
    exact placed.places p at_

/- A pattern that is behind all others is found at the place that was put down for it. -/
theorem placesBehind {places : Table Text Nat} {ps : List Text} {p : Text}
    (known : ∀ q i, places.get? q = some i ↔ ps[i]? = some q) (fresh : p ∉ ps) (q : Text) (i : Nat) :
    (places.set p ps.length).get? q = some i ↔ (ps ++ [p])[i]? = some q := by
  have behind : (ps ++ [p])[i]? = some q ↔ ps[i]? = some q ∨ ps.length = i ∧ p = q := by
    rw [List.getElem?_append]
    split
    · rename_i less
      simp [Nat.ne_of_gt less]
    · rename_i more
      have none : ps[i]? = none := List.getElem?_eq_none (Nat.not_lt.1 more)
      rw [none, List.getElem?_singleton]
      by_cases last : ps.length = i
      · simp [last]
      · have beyond : i - ps.length ≠ 0 := by omega
        simp [last, beyond]
  rw [Table.getSet, behind]
  by_cases same : q = p
  · subst same
    have absent : ps[i]? ≠ some q := fun h => fresh (List.mem_of_getElem? h)
    simp [absent]
  · have differ : ¬ compare q p = .eq := fun equal => same (Std.LawfulEqOrd.eq_of_compare equal)
    rw [if_neg differ, known]
    simp [Ne.symm same]

/- A pattern that is met for the first time gets the place behind all others. -/
theorem addFresh {gs : List Group} {p : Text} {s : Slots} (index : Nat) (placed : Placed gs s)
    (fresh : p ∉ gs.map Group.pattern) :
    ∃ s', s.add p index = .ok s' ∧ Placed (gs ++ [⟨p, index, []⟩]) s' := by
  have none : s.places.get? p = none := by
    refine Option.eq_none_iff_forall_not_mem.2 fun place known => fresh ?_
    exact List.mem_of_getElem? ((placed.places p place).1 known)
  have count : s.groups.length = (gs.map Group.pattern).length := by rw [placed.groups]; simp
  refine ⟨⟨s.places.set p s.groups.length, s.groups ++ [(p, [index])]⟩, ?_, ?_, ?_⟩
  · simp only [Slots.add, none]
  · rw [placed.groups]
    simp [Group.indices]
  · rw [count, List.map_append]
    exact placesBehind placed.places fresh

theorem groupsFrom {gs : List Group} {s : Slots} (placed : Placed gs s) (ps : List (Text × Nat)) :
    ∃ s', checkedGroups s ps = .ok s' ∧
      Placed (ps.foldl (fun groups p => Group.add p.1 p.2 groups) gs) s' := by
  induction ps generalizing gs s with
  | nil => exact ⟨s, rfl, placed⟩
  | cons p ps ih =>
    have step : ∃ s', s.add p.1 p.2 = .ok s' ∧ Placed (Group.add p.1 p.2 gs) s' := by
      rcases addCases p.1 p.2 gs with ⟨before, g, after, rfl, same, added⟩ | ⟨fresh, added⟩
      · rw [added, ← same]
        exact addMet p.2 placed
      · rw [added]
        exact addFresh p.2 placed fresh
    obtain ⟨next, added, placed⟩ := step
    obtain ⟨last, found, placed⟩ := ih placed
    exact ⟨last, by rw [checkedGroups, added, okBind, found], placed⟩

/- A flag is set for every root, and those that answer for others are written down. -/
def Roots.marked (r : Roots) (g : Group) : Roots :=
  ⟨r.keep.set g.root true, if g.later.isEmpty then r.provenance else r.provenance.set g.root g.indices⟩

theorem markSafe {r : Roots} {g : Group} (bound : g.root < r.keep.length) :
    r.mark g.indices = .ok (r.marked g) := by
  have first : g.indices[0]? = some g.root := rfl
  simp only [Roots.mark, Roots.marked, entryOk first, okBind, storeOk bound]
  cases later : g.later with
  | nil => simp [Group.indices, later]
  | cons i rest => simp [Group.indices, later]

theorem rootsSafe {r : Roots} {gs : List Group} (bound : ∀ g ∈ gs, g.root < r.keep.length) :
    checkedRoots r (gs.map Group.indices) = .ok (gs.foldl Roots.marked r) := by
  induction gs generalizing r with
  | nil => rfl
  | cons g gs ih =>
    have length : (r.marked g).keep.length = r.keep.length := List.length_set
    have later : ∀ h ∈ gs, h.root < (r.marked g).keep.length := fun h member =>
      length.symm ▸ bound h (List.mem_cons_of_mem _ member)
    rw [List.map_cons, checkedRoots, markSafe (bound g List.mem_cons_self), okBind, ih later,
      List.foldl_cons]

/- The flags that are set are those of the roots. -/
theorem markedKeep (gs : List Group) (r : Roots) (i : Nat) :
    (gs.foldl Roots.marked r).keep[i]? =
      r.keep[i]?.map (fun b => b || gs.any (fun g => g.root == i)) := by
  induction gs generalizing r with
  | nil => simp
  | cons g gs ih =>
    rw [List.foldl_cons, ih, List.any_cons]
    simp only [Roots.marked, List.getElem?_set]
    by_cases same : g.root = i
    · subst same
      by_cases inside : g.root < r.keep.length <;> simp [inside]
    · have apart : (g.root == i) = false := beq_eq_false_iff_ne.2 same
      simp [same, apart]

theorem markedProvenance (gs : List Group) (r : Roots) :
    (gs.foldl Roots.marked r).provenance =
      ((gs.filter (fun g => !g.later.isEmpty)).map (fun g => (g.root, g.indices))).foldl
        (fun t p => t.set p.1 p.2) r.provenance := by
  induction gs generalizing r with
  | nil => rfl
  | cons g gs ih =>
    rw [List.foldl_cons, ih, List.filter_cons]
    by_cases alone : g.later.isEmpty = true <;> simp [Roots.marked, alone]

theorem keptSafe {keep : List Bool} {gs : List Group} {cs : List (Chunk × Nat)}
    (flags : ∀ c ∈ cs, keep[c.2]? = some (gs.any (fun g => g.root == c.2))) :
    checkedKept keep cs = .ok (cs.filter (fun c => gs.any (fun g => g.root == c.2))) := by
  induction cs with
  | nil => rfl
  | cons c cs ih =>
    have later := ih fun d hd => flags d (List.mem_cons_of_mem _ hd)
    simp only [checkedKept, entryOk (flags c List.mem_cons_self), okBind, later, List.filter_cons]

theorem ratioSafe (kept total : Nat) : checkedRatio kept total = .ok (keptRatio kept total) := by
  unfold checkedRatio keptRatio
  split
  · rfl
  · rename_i some
    exact ratioOk some

theorem dedupSafe (chars : Nat) (chunks : List Chunk) (p : Policy) :
    checkedDedup chars chunks p = .ok (dedup chars chunks p) := by
  have grouped := groupedPatterns (chunks.map (patternOf chars))
  obtain ⟨slots, found, placed⟩ := groupsFrom placedNone (chunks.map (patternOf chars)).zipIdx
  change Placed (groups chars chunks) slots at placed
  have lists : slots.groups.map (·.2) = (groups chars chunks).map Group.indices := by
    rw [placed.groups, List.map_map]; rfl
  have bound : ∀ g ∈ groups chars chunks, g.root < (Roots.start chunks.length).keep.length := by
    intro g member
    have inside := grouped.bounded member (rootMember g)
    rw [List.length_map] at inside
    rwa [Roots.start, List.length_replicate]
  have flags : ∀ c ∈ chunks.zipIdx,
      ((groups chars chunks).foldl Roots.marked (.start chunks.length)).keep[c.2]? =
        some ((groups chars chunks).any (fun g => g.root == c.2)) := by
    intro c member
    have inside : c.2 < chunks.length := (List.mem_zipIdx' member).1
    rw [markedKeep, Roots.start, List.getElem?_replicate, if_pos inside, Option.map_some, Bool.false_or]
  simp only [checkedDedup, found, lists, rootsSafe bound, keptSafe flags, ratioSafe, okBind,
    markedProvenance]
  rfl

theorem compressSafe (c : Config.Compressor) (chunks : List Chunk) (p : Policy) :
    checkedCompress c chunks p = .ok (compress c chunks p) := by
  cases p with
  | logStream => exact dedupSafe _ chunks _
  | procedureDoc | technicalFormal | dataTable | mixedSafe | proseText => rfl

end Intake.Compression
