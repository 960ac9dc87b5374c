import Mathlib.Data.List.Sort
import Intake.Compression

/-! Groups of patterns. Each group holds every index of its pattern in ascending order, no two
groups have one pattern, and they stand in the order of their roots; so the indices of all
groups are all there are. -/
namespace Intake.Compression

/- Every index at which a pattern stands. -/
def indicesOf (ps : List Text) (p : Text) : List Nat :=
  (List.range ps.length).filter (fun i => decide (ps[i]? = some p))

theorem memberIndicesOf {ps : List Text} {p : Text} {i : Nat} :
    i ∈ indicesOf ps p ↔ ps[i]? = some p := by
  simp only [indicesOf, List.mem_filter, List.mem_range, decide_eq_true_eq]
  exact ⟨fun h => h.2, fun h => ⟨(List.getElem?_eq_some_iff.1 h).1, h⟩⟩

theorem indicesAscending (ps : List Text) (p : Text) : (indicesOf ps p).Pairwise (· < ·) :=
  List.pairwise_lt_range.filter _

theorem indicesAppend (ps qs : List Text) (p : Text) :
    indicesOf (ps ++ qs) p = indicesOf ps p ++ (indicesOf qs p).map (ps.length + ·) := by
  have earlier : (List.range ps.length).filter (fun i => decide ((ps ++ qs)[i]? = some p)) =
      indicesOf ps p := by
    refine List.filter_congr fun i hi => ?_
    rw [List.getElem?_append_left (List.mem_range.1 hi)]
  have later : (List.range qs.length).filter (fun i => decide ((ps ++ qs)[ps.length + i]? = some p)) =
      indicesOf qs p := by
    refine List.filter_congr fun i _ => ?_
    rw [List.getElem?_append_right (Nat.le_add_right _ _), Nat.add_sub_cancel_left]
  rw [indicesOf, List.length_append, List.range_add, List.filter_append, earlier, List.filter_map,
    ← later]
  rfl

theorem indicesSnoc (ps : List Text) (q p : Text) :
    indicesOf (ps ++ [q]) p = indicesOf ps p ++ if q = p then [ps.length] else [] := by
  rw [indicesAppend]
  by_cases same : q = p <;> simp [indicesOf, same]

structure Grouped (ps : List Text) (gs : List Group) : Prop where
  indices : ∀ g ∈ gs, g.indices = indicesOf ps g.pattern
  distinct : (gs.map Group.pattern).Nodup
  rising : (gs.map Group.root).Pairwise (· < ·)
  covered : ∀ p ∈ ps, p ∈ gs.map Group.pattern

theorem rootMember (g : Group) : g.root ∈ g.indices := List.mem_cons_self

namespace Grouped
variable {ps : List Text} {gs : List Group} (grouped : Grouped ps gs)
include grouped

theorem at_ {g : Group} (h : g ∈ gs) {i : Nat} (hi : i ∈ g.indices) : ps[i]? = some g.pattern := by
  rw [grouped.indices g h] at hi
  exact memberIndicesOf.1 hi

theorem bounded {g : Group} (h : g ∈ gs) {i : Nat} (hi : i ∈ g.indices) : i < ps.length :=
  (List.getElem?_eq_some_iff.1 (grouped.at_ h hi)).1

theorem ascending {g : Group} (h : g ∈ gs) : g.indices.Pairwise (· < ·) := by
  rw [grouped.indices g h]
  exact indicesAscending ps g.pattern

/- Wherever a pattern stands, its group has the index. -/
theorem groupAt {p : Text} {i : Nat} (here : ps[i]? = some p) :
    ∃ g ∈ gs, g.pattern = p ∧ i ∈ g.indices := by
  obtain ⟨g, hg, pattern⟩ := List.mem_map.1 (grouped.covered p (List.mem_of_getElem? here))
  refine ⟨g, hg, pattern, ?_⟩
  rw [grouped.indices g hg, memberIndicesOf, here, pattern]

/- The groups in which an index stands are one. -/
theorem unique {g g' : Group} (h : g ∈ gs) (h' : g' ∈ gs) {i : Nat} (hi : i ∈ g.indices)
    (hi' : i ∈ g'.indices) : g = g' := by
  have same : g.pattern = g'.pattern :=
    Option.some.inj ((grouped.at_ h hi).symm.trans (grouped.at_ h' hi'))
  have apart : gs.Pairwise (fun a b => a.pattern ≠ b.pattern) := List.pairwise_map.1 grouped.distinct
  have once := List.Pairwise.forall_of_forall_of_flip
    (R := fun a b : Group => a.pattern = b.pattern → a = b) (fun _ _ _ => rfl)
    (apart.imp fun differ equal => absurd equal differ)
    (apart.imp fun differ equal => absurd equal.symm differ)
  exact once h h' same

/- The indices of all groups are all there are. -/
theorem complete : (gs.flatMap Group.indices).Perm (List.range ps.length) := by
  have once : (gs.flatMap Group.indices).Nodup := by
    refine List.pairwise_flatMap.2
      ⟨fun g hg => (grouped.ascending hg).imp Nat.ne_of_lt, ?_⟩
    have apart : gs.Pairwise (fun a b => a.pattern ≠ b.pattern) :=
      List.pairwise_map.1 grouped.distinct
    refine apart.imp_of_mem fun {a b} ha hb differ i hi j hj equal => ?_
    subst equal
    exact differ (congrArg Group.pattern (grouped.unique ha hb hi hj))
  refine (List.perm_ext_iff_of_nodup once List.nodup_range).2 fun i => ?_
  rw [List.mem_flatMap, List.mem_range]
  constructor
  · rintro ⟨g, hg, hi⟩
    exact grouped.bounded hg hi
  · intro bound
    obtain ⟨g, hg, -, member⟩ := grouped.groupAt (List.getElem?_eq_getElem bound)
    exact ⟨g, hg, member⟩

/- The root of a group stands before all others of its pattern. -/
theorem rootLeast {g : Group} (h : g ∈ gs) {i : Nat} (hi : ps[i]? = some g.pattern) : g.root ≤ i := by
  have member : i ∈ g.indices := by rwa [grouped.indices g h, memberIndicesOf]
  rcases List.mem_cons.1 member with same | later
  · exact Nat.le_of_eq same.symm
  · exact Nat.le_of_lt ((List.pairwise_cons.1 (grouped.ascending h)).1 i later)

/- The roots are the indices at which a pattern stands for the first time. -/
theorem rootIff {i : Nat} :
    i ∈ gs.map Group.root ↔ i < ps.length ∧ ∀ j < i, ps[j]? ≠ ps[i]? := by
  constructor
  · intro member
    obtain ⟨g, hg, rfl⟩ := List.mem_map.1 member
    refine ⟨grouped.bounded hg (rootMember g), fun j earlier same => ?_⟩
    rw [grouped.at_ hg (rootMember g)] at same
    exact Nat.not_le_of_lt earlier (grouped.rootLeast hg same)
  · rintro ⟨bound, first⟩
    obtain ⟨g, hg, -, member⟩ := grouped.groupAt (List.getElem?_eq_getElem bound)
    have here := grouped.at_ hg member
    have least := grouped.rootLeast hg here
    have root := grouped.at_ hg (rootMember g)
    refine List.mem_map.2 ⟨g, hg, (Nat.lt_or_eq_of_le least).resolve_left fun earlier => ?_⟩
    exact first g.root earlier (root.trans here.symm)

/- The indices that are the root of a group are the roots in their order. -/
theorem roots :
    (List.range ps.length).filter (fun i => gs.any (fun g => g.root == i)) = gs.map Group.root := by
  refine (List.pairwise_lt_range.filter _).eq_of_mem_iff grouped.rising fun i => ?_
  simp only [List.mem_filter, List.mem_range, List.any_eq_true, beq_iff_eq, ← List.mem_map]
  exact ⟨fun h => h.2, fun h => ⟨(grouped.rootIff.1 h).1, h⟩⟩

/- Which groups there are follows from the patterns. -/
theorem memberIff {g : Group} : g ∈ gs ↔ g.indices = indicesOf ps g.pattern := by
  constructor
  · exact grouped.indices g
  · intro indices
    have root : ps[g.root]? = some g.pattern := by
      rw [← memberIndicesOf, ← indices]
      exact rootMember g
    obtain ⟨h, member, pattern, -⟩ := grouped.groupAt root
    have same : g.indices = h.indices := by rw [indices, grouped.indices h member, pattern]
    obtain ⟨roots, laters⟩ := List.cons.inj same
    have equal : g = h := by
      cases g; cases h; cases pattern; cases roots; cases laters; rfl
    rwa [equal]

/- In which order they stand follows too, so there is one way to group. -/
theorem only {hs : List Group} (other : Grouped ps hs) : gs = hs := by
  -- The order of the roots is strict, so a list that stands in it is known by its members.
  have : Std.Irrefl (fun a b : Group => a.root < b.root) := ⟨fun g => Nat.lt_irrefl g.root⟩
  have : Std.Antisymm (fun a b : Group => a.root < b.root) :=
    ⟨fun _ _ less more => absurd less (Nat.lt_asymm more)⟩
  refine (List.pairwise_map.1 grouped.rising).eq_of_mem_iff (List.pairwise_map.1 other.rising)
    fun g => ?_
  rw [grouped.memberIff, other.memberIff]

end Grouped

/- An index is put behind the indices of its pattern, or opens a group behind all others. -/
theorem addCases (p : Text) (index : Nat) (gs : List Group) :
    (∃ before g after, gs = before ++ g :: after ∧ g.pattern = p ∧
      Group.add p index gs = before ++ { g with later := g.later ++ [index] } :: after) ∨
    p ∉ gs.map Group.pattern ∧ Group.add p index gs = gs ++ [⟨p, index, []⟩] := by
  induction gs with
  | nil => exact .inr ⟨by simp, rfl⟩
  | cons g gs ih =>
    unfold Group.add
    split
    · rename_i same
      exact .inl ⟨[], g, gs, rfl, same, rfl⟩
    · rename_i differ
      rcases ih with ⟨before, h, after, rfl, same, added⟩ | ⟨fresh, added⟩
      · exact .inl ⟨g :: before, h, after, rfl, same, by rw [added]; rfl⟩
      · refine .inr ⟨?_, by rw [added]; rfl⟩
        rw [List.map_cons, List.mem_cons]
        rintro (same | member)
        · exact differ same.symm
        · exact fresh member

/- The index behind all others joins a group. -/
theorem groupedJoin {ps : List Text} {before after : List Group} {g : Group}
    (grouped : Grouped ps (before ++ g :: after)) :
    Grouped (ps ++ [g.pattern])
      (before ++ { g with later := g.later ++ [ps.length] } :: after) := by
  have patterns : (before ++ { g with later := g.later ++ [ps.length] } :: after).map Group.pattern =
      (before ++ g :: after).map Group.pattern := by simp
  have roots : (before ++ { g with later := g.later ++ [ps.length] } :: after).map Group.root =
      (before ++ g :: after).map Group.root := by simp
  have here : g ∈ before ++ g :: after := by simp
  have apart : (before ++ g :: after).Pairwise (fun a b => a.pattern ≠ b.pattern) :=
    List.pairwise_map.1 grouped.distinct
  obtain ⟨-, behind, across⟩ := List.pairwise_append.1 apart
  have others : ∀ h ∈ before ++ after, h ∈ before ++ g :: after ∧ h.pattern ≠ g.pattern := by
    intro h member
    rcases List.mem_append.1 member with member | member
    · exact ⟨List.mem_append_left _ member, across h member g List.mem_cons_self⟩
    · exact ⟨by simp [member], ((List.pairwise_cons.1 behind).1 h member).symm⟩
  refine ⟨fun h member => ?_, patterns ▸ grouped.distinct, roots ▸ grouped.rising, ?_⟩
  · have choice : h = { g with later := g.later ++ [ps.length] } ∨ h ∈ before ++ after := by
      simp only [List.mem_append, List.mem_cons] at member ⊢
      rcases member with member | member | member
      · exact .inr (.inl member)
      · exact .inl member
      · exact .inr (.inr member)
    rw [indicesSnoc]
    rcases choice with rfl | member
    · have longer : ({ g with later := g.later ++ [ps.length] } : Group).indices =
          g.indices ++ [ps.length] := rfl
      rw [longer, grouped.indices g here, if_pos rfl]
    · obtain ⟨old, differ⟩ := others h member
      rw [grouped.indices h old, if_neg differ.symm, List.append_nil]
  · intro q hq
    rw [patterns]
    rcases List.mem_append.1 hq with hq | hq
    · exact grouped.covered q hq
    · rw [List.mem_singleton.1 hq]
      exact List.mem_map.2 ⟨g, here, rfl⟩

/- The index behind all others opens a group of a pattern that is met for the first time. -/
theorem groupedOpen {ps : List Text} {gs : List Group} (grouped : Grouped ps gs) {p : Text}
    (fresh : p ∉ gs.map Group.pattern) : Grouped (ps ++ [p]) (gs ++ [⟨p, ps.length, []⟩]) := by
  have never : indicesOf ps p = [] := by
    refine List.eq_nil_iff_forall_not_mem.2 fun i hi => fresh (grouped.covered p ?_)
    exact List.mem_of_getElem? (memberIndicesOf.1 hi)
  refine ⟨fun h member => ?_, ?_, ?_, ?_⟩
  · rw [indicesSnoc]
    rcases List.mem_append.1 member with member | member
    · have differ : p ≠ h.pattern := fun equal => fresh (List.mem_map.2 ⟨h, member, equal.symm⟩)
      rw [grouped.indices h member, if_neg differ, List.append_nil]
    · rw [List.mem_singleton.1 member, never, if_pos rfl]
      rfl
  · rw [List.map_append]
    refine List.nodup_append.2 ⟨grouped.distinct, by simp, ?_⟩
    rintro q hq q' hq' rfl
    rw [List.mem_singleton.1 hq'] at hq
    exact fresh hq
  · rw [List.map_append]
    refine List.pairwise_append.2 ⟨grouped.rising, by simp, ?_⟩
    intro r hr r' hr'
    obtain ⟨h, member, rfl⟩ := List.mem_map.1 hr
    rw [List.mem_singleton.1 hr']
    exact grouped.bounded member (rootMember h)
  · intro q hq
    rw [List.map_append, List.mem_append]
    rcases List.mem_append.1 hq with hq | hq
    · exact .inl (grouped.covered q hq)
    · exact .inr hq

/- One more pattern keeps the groups complete. -/
theorem groupedAdd {ps : List Text} {gs : List Group} (grouped : Grouped ps gs) (p : Text) :
    Grouped (ps ++ [p]) (Group.add p ps.length gs) := by
  rcases addCases p ps.length gs with ⟨before, g, after, rfl, rfl, added⟩ | ⟨fresh, added⟩
  · rw [added]
    exact groupedJoin grouped
  · rw [added]
    exact groupedOpen grouped fresh

theorem groupedFrom {before : List Text} {gs : List Group} (grouped : Grouped before gs)
    (rest : List Text) :
    Grouped (before ++ rest)
      ((rest.zipIdx before.length).foldl (fun groups p => Group.add p.1 p.2 groups) gs) := by
  induction rest generalizing before gs with
  | nil => rwa [List.append_nil]
  | cons p rest ih =>
    have next := ih (groupedAdd grouped p)
    rwa [List.append_assoc, List.singleton_append, List.length_append, List.length_singleton] at next

theorem groupedNone : Grouped [] [] := ⟨by simp, by simp, by simp, by simp⟩

theorem groupedPatterns (ps : List Text) : Grouped ps (Group.ofPatterns ps) :=
  groupedFrom groupedNone ps

end Intake.Compression
