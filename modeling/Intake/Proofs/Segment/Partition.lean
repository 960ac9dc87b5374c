import Intake.Proofs.Segment.Buffering
import Mathlib.Order.Bounds.Defs

/-! Partitions of the pieces. Where no piece is beyond the hard limit, buffering closes a group only
when the next piece would overfill it. Whatever partition the pieces are given, while one of its
groups goes by no more than one group is closed, and so no partition gets along with fewer groups. -/
namespace Intake.Buffer

namespace Group

/- The pieces of a group in order. -/
def members (g : Group) : List Span := g.first :: g.later

def addAll (g : Group) (ps : List Span) : Group := { g with later := g.later ++ ps }

/- A single piece, or neighbours whose covering slice is within the bound. -/
def Admissible (bound : Nat) (t : Text) (g : Group) : Prop :=
  g.later = [] ∨ chars t g.span ≤ bound

theorem membersAdd (g : Group) (piece : Span) : (g.add piece).members = g.members ++ [piece] := rfl

theorem addAllAdd (g : Group) (piece : Span) (ps : List Span) :
    (g.add piece).addAll ps = g.addAll (piece :: ps) := by
  rw [addAll, addAll, add, List.append_assoc, List.singleton_append]

end Group

/- All pieces in order, put into groups of neighbours. -/
structure Partition (bound : Nat) (t : Text) (pieces : List Span) (gs : List Group) : Prop where
  complete : gs.flatMap Group.members = pieces
  admissible : ∀ g ∈ gs, g.Admissible bound t

/- Two pieces that may stand in one group as its first and its last. -/
def Together (bound : Nat) (t : Text) (p q : Span) : Prop := chars t ⟨p.start, q.stop⟩ ≤ bound

section Covering
variable {t : Text}

/- A slice within another one is no longer. -/
theorem charsInside {a b : Span} (inner : t.Within a) (outer : t.Within b) (inside : a.Inside b) :
    chars t a ≤ chars t b := by
  obtain ⟨low, high⟩ := inside
  obtain ⟨start, stop, forward⟩ := Text.withinBreaks.1 inner
  obtain ⟨outerStart, outerStop, -⟩ := Text.withinBreaks.1 outer
  have left : t.Within ⟨b.start, a.start⟩ := Text.withinBreaks.2 ⟨outerStart, start, low⟩
  have right : t.Within ⟨a.stop, b.stop⟩ := Text.withinBreaks.2 ⟨stop, outerStop, high⟩
  have joined : _ + chars t a + _ = chars t b := charsJoined left right forward
  omega

variable {g : Group} (within : ∀ s ∈ g.members, t.Within s)
  (apart : g.members.Pairwise (fun a b => a.stop ≤ b.start))
include within apart

theorem lastMember : ∃ s ∈ g.members, s.stop = g.stop ∧ ∀ p ∈ g.members, p.stop ≤ s.stop := by
  obtain ⟨front, last, parts⟩ : ∃ front last, g.members = front ++ [last] :=
    ⟨_, _, (List.dropLast_concat_getLast (List.cons_ne_nil g.first g.later)).symm⟩
  have ends : g.stop = last.stop := by
    have whole : g.members.getLast? = some last := by rw [parts, List.getLast?_concat]
    rw [Group.members, List.getLast?_cons, Option.some.injEq] at whole
    rw [Group.stop, whole]
  have member : last ∈ g.members := by rw [parts]; simp
  refine ⟨last, member, ends.symm, fun p hp => ?_⟩
  have forward := (Text.withinBound (within last member)).1
  rw [parts] at apart hp
  rcases List.mem_append.1 hp with earlier | same
  · have behind := (List.pairwise_append.1 apart).2.2 p earlier last List.mem_cons_self
    exact Nat.le_trans behind forward
  · exact Nat.le_of_eq (congrArg Span.stop (List.mem_singleton.1 same))

theorem memberInside : ∀ p ∈ g.members, p.Inside g.span := by
  obtain ⟨last, -, ends, latest⟩ := lastMember within apart
  have first := (List.pairwise_cons.1 apart).1
  have forward := (Text.withinBound (within g.first List.mem_cons_self)).1
  intro p hp
  have stops : p.stop ≤ g.stop := by rw [← ends]; exact latest p hp
  refine ⟨?_, stops⟩
  rcases List.mem_cons.1 hp with rfl | later
  · exact Nat.le_refl _
  · exact Nat.le_trans forward (first p later)

theorem withinGroup : t.Within g.span := by
  obtain ⟨last, member, ends, latest⟩ := lastMember within apart
  have start := Text.withinBreaks.1 (within g.first List.mem_cons_self)
  have stop := (Text.withinBreaks.1 (within last member)).2.1
  have reached := latest g.first List.mem_cons_self
  rw [ends] at stop reached
  exact Text.withinBreaks.2 ⟨start.1, stop, Nat.le_trans start.2.2 reached⟩

/- In an admissible group any two members may open and close a group. -/
theorem admissibleTogether {bound : Nat} (admissible : g.Admissible bound t) :
    g.members.Pairwise (Together bound t) := by
  rcases admissible with single | covered
  · rw [Group.members, single]
    exact List.pairwise_singleton _ _
  · refine apart.imp_of_mem fun {p q} hp hq after => ?_
    have inside : Span.Inside ⟨p.start, q.stop⟩ g.span :=
      ⟨(memberInside within apart p hp).1, (memberInside within apart q hq).2⟩
    have both : t.Within ⟨p.start, q.stop⟩ := withinJoined (within p hp) (within q hq) after
    exact Nat.le_trans (charsInside both (withinGroup within apart) inside) covered

end Covering

/- Groups as they are closed while pieces come in, one group being open. -/
def groupsFrom (bound : Nat) (t : Text) (g : Group) : List Span → List Group
  | [] => [g]
  | piece :: rest =>
    if chars t ⟨g.first.start, piece.stop⟩ ≤ bound then groupsFrom bound t (g.add piece) rest
    else g :: groupsFrom bound t (.single piece) rest

section Greedy
variable {bound : Nat} {t : Text}

theorem groupsTaken {g : Group} {piece : Span} (fits : Together bound t g.first piece) (rest : List Span) :
    groupsFrom bound t g (piece :: rest) = groupsFrom bound t (g.add piece) rest := if_pos fits

theorem groupsClosed {g : Group} {piece : Span} (beyond : ¬ Together bound t g.first piece)
    (rest : List Span) :
    groupsFrom bound t g (piece :: rest) = g :: groupsFrom bound t (.single piece) rest := if_neg beyond

/- Without oversized pieces every batch is a group. -/
theorem batchesGroups {limit : Nat} {pieces : List Span}
    (limited : ∀ s ∈ pieces, chars t s ≤ limit) (g : Group) :
    batchesFrom bound limit t (some g) pieces = (groupsFrom bound t g pieces).map .group := by
  induction pieces generalizing g with
  | nil => rfl
  | cons piece rest ih =>
    obtain ⟨here, later⟩ := List.forall_mem_cons.1 limited
    simp only [batchesFrom, groupsFrom, if_neg (Nat.not_lt.2 here)]
    split
    · exact ih later _
    · rw [ih later, List.map_cons]

theorem groupsComplete (g : Group) (pieces : List Span) :
    (groupsFrom bound t g pieces).flatMap Group.members = g.members ++ pieces := by
  induction pieces generalizing g with
  | nil => rfl
  | cons piece rest ih =>
    by_cases fits : Together bound t g.first piece
    · rw [groupsTaken fits, ih, Group.membersAdd, List.append_assoc, List.singleton_append]
    · rw [groupsClosed fits, List.flatMap_cons, ih]
      rfl

theorem groupsAdmissible {g : Group} (admissible : g.Admissible bound t) (pieces : List Span) :
    ∀ h ∈ groupsFrom bound t g pieces, h.Admissible bound t := by
  induction pieces generalizing g with
  | nil => exact List.forall_mem_singleton.2 admissible
  | cons piece rest ih =>
    by_cases fits : Together bound t g.first piece
    · rw [groupsTaken fits]
      refine ih (.inr ?_)
      rwa [Group.spanAdd]
    · rw [groupsClosed fits]
      exact List.forall_mem_cons.2 ⟨admissible, ih (.inl rfl)⟩

/- Pieces that all fit behind the first of the open group join it. -/
theorem groupsJoin {g : Group} {ps : List Span} (fit : ∀ p ∈ ps, Together bound t g.first p)
    (rest : List Span) :
    groupsFrom bound t g (ps ++ rest) = groupsFrom bound t (g.addAll ps) rest := by
  induction ps generalizing g with
  | nil => rw [Group.addAll, List.append_nil, List.nil_append]
  | cons p ps ih =>
    obtain ⟨here, later⟩ := List.forall_mem_cons.1 fit
    rw [List.cons_append, groupsTaken here, ← Group.addAllAdd]
    exact ih later

/- While pieces go by of which any two may share a group, at most one group is closed: the group
that one of them opens takes in all behind it. -/
theorem groupsPass {ps : List Span} (together : ps.Pairwise (Together bound t)) (g : Group)
    (rest : List Span) :
    ∃ h, (groupsFrom bound t g (ps ++ rest)).length ≤ (groupsFrom bound t h rest).length + 1 := by
  induction ps generalizing g with
  | nil => exact ⟨g, Nat.le_succ _⟩
  | cons p ps ih =>
    obtain ⟨first, later⟩ := List.pairwise_cons.1 together
    rw [List.cons_append]
    by_cases fits : Together bound t g.first p
    · rw [groupsTaken fits]
      exact ih later (g.add p)
    · have joined := groupsJoin (g := .single p) first rest
      refine ⟨(Group.single p).addAll ps, ?_⟩
      exact Nat.le_of_eq (by rw [groupsClosed fits, joined, List.length_cons])

/- A group that is open already costs one group at most. -/
theorem groupsFewer {gs : List Group}
    (together : ∀ g ∈ gs, g.members.Pairwise (Together bound t)) (g : Group) :
    (groupsFrom bound t g (gs.flatMap Group.members)).length ≤ gs.length + 1 := by
  induction gs generalizing g with
  | nil => exact Nat.le_refl 1
  | cons h gs ih =>
    obtain ⟨here, later⟩ := List.forall_mem_cons.1 together
    obtain ⟨opened, passed⟩ := groupsPass here g (gs.flatMap Group.members)
    have others := ih later opened
    rw [List.flatMap_cons, List.length_cons]
    omega

/- The first group of a partition is taken in as a whole. -/
theorem groupsFirst {h : Group} {gs : List Group}
    (together : ∀ g ∈ h :: gs, g.members.Pairwise (Together bound t)) :
    (groupsFrom bound t (.single h.first) (h.later ++ gs.flatMap Group.members)).length ≤
      (h :: gs).length := by
  obtain ⟨here, later⟩ := List.forall_mem_cons.1 together
  rw [groupsJoin (g := .single h.first) (List.pairwise_cons.1 here).1]
  exact groupsFewer later _

end Greedy

section Chunks
variable {b : Bound} (unit : String) {t : Text} {pieces : List Span}
  (within : ∀ s ∈ pieces, t.Within s) (apart : pieces.Pairwise (fun a b => a.stop ≤ b.start))
include within apart

/- In every partition, pieces of one group may share a group two by two. -/
theorem partitionTogether {bound : Nat} {gs : List Group} (parts : Partition bound t pieces gs) :
    ∀ g ∈ gs, g.members.Pairwise (Together bound t) := by
  intro g hg
  have members : g.members.Sublist pieces := by
    rw [← parts.complete, List.flatMap_def]
    exact List.sublist_flatten_of_mem (List.mem_map.2 ⟨g, hg, rfl⟩)
  exact admissibleTogether (fun s hs => within s (members.subset hs)) (apart.sublist members)
    (parts.admissible g hg)

theorem chunksPartition (limited : ∀ s ∈ pieces, chars t s ≤ b.hardLimit) :
    ∃ gs, Partition b.maxSize t pieces gs ∧
      chunks b unit t pieces = gs.map (fun g => emit unit t g.size g.span) ∧
      ∀ hs, Partition b.maxSize t pieces hs → gs.length ≤ hs.length := by
  rw [chunksBatches b unit within apart, batches]
  cases pieces with
  | nil => exact ⟨[], ⟨rfl, by simp⟩, rfl, fun _ _ => Nat.zero_le _⟩
  | cons piece rest =>
    obtain ⟨here, later⟩ := List.forall_mem_cons.1 limited
    have greedy : batchesFrom b.maxSize b.hardLimit t none (piece :: rest) =
        (groupsFrom b.maxSize t (.single piece) rest).map .group := by
      rw [batchesFrom, if_neg (Nat.not_lt.2 here), batchesGroups later]
    refine ⟨groupsFrom b.maxSize t (.single piece) rest,
      ⟨groupsComplete _ _, groupsAdmissible (.inl rfl) rest⟩, ?_, fun hs parts => ?_⟩
    · rw [greedy, List.flatMap_map]
      exact List.map_eq_flatMap.symm
    · have together := partitionTogether within apart parts
      cases hs with
      | nil => cases parts.complete
      | cons h hs =>
        obtain ⟨rfl, rfl⟩ := List.cons.inj parts.complete
        exact groupsFirst together

end Chunks

/- Any group that is more than a single piece has to keep the bound, gaps included; a single piece
need not. -/
theorem bufferingFewest (maxSize factor : UInt64) (unit : String) {t : Text} {pieces : List Span}
    (within : ∀ s ∈ pieces, t.Within s) (apart : pieces.Pairwise (fun a b => a.stop ≤ b.start))
    (limited : ∀ s ∈ pieces, chars t s ≤ (Bound.of maxSize factor).hardLimit) :
    IsLeast {n | ∃ gs, Partition (Bound.of maxSize factor).maxSize t pieces gs ∧ gs.length = n}
      (chunks (.of maxSize factor) unit t pieces).length := by
  obtain ⟨gs, parts, cut, fewest⟩ := chunksPartition unit within apart limited
  rw [cut, List.length_map]
  refine ⟨⟨gs, parts, rfl⟩, ?_⟩
  rintro n ⟨hs, other, rfl⟩
  exact fewest hs other

/- One piece is longer than the bound and stands alone; the one behind it would fit with the last. -/
theorem longPieceFewest :
    let t : Text := "ab cd efghijk l mn".toList
    let pieces : List Span := [⟨0, 2⟩, ⟨3, 5⟩, ⟨6, 13⟩, ⟨14, 15⟩, ⟨16, 18⟩]
    (∀ s ∈ pieces, t.Within s) ∧ pieces.Pairwise (fun a b => a.stop ≤ b.start) ∧
    (∀ s ∈ pieces, chars t s ≤ (Bound.of 5 2).hardLimit) ∧
    (chunks (.of 5 2) "prose_block" t pieces).length = 3 ∧
    IsLeast {n | ∃ gs, Partition (Bound.of 5 2).maxSize t pieces gs ∧ gs.length = n} 3 := by
  intro t pieces
  have within : ∀ s ∈ pieces, t.Within s := by
    simp only [pieces, List.forall_mem_cons, List.not_mem_nil, false_implies, implies_true, and_true]
    exact ⟨⟨[], "ab".toList, " cd efghijk l mn".toList, rfl, rfl, rfl⟩,
      ⟨"ab ".toList, "cd".toList, " efghijk l mn".toList, rfl, rfl, rfl⟩,
      ⟨"ab cd ".toList, "efghijk".toList, " l mn".toList, rfl, rfl, rfl⟩,
      ⟨"ab cd efghijk ".toList, "l".toList, " mn".toList, rfl, rfl, rfl⟩,
      ⟨"ab cd efghijk l ".toList, "mn".toList, [], rfl, rfl, rfl⟩⟩
  have apart : pieces.Pairwise (fun a b => a.stop ≤ b.start) := by decide
  have limited : ∀ s ∈ pieces, chars t s ≤ (Bound.of 5 2).hardLimit := by decide
  have count : (chunks (.of 5 2) "prose_block" t pieces).length = 3 := by decide +kernel
  have fewest := bufferingFewest 5 2 "prose_block" within apart limited
  rw [count] at fewest
  exact ⟨within, apart, limited, count, fewest⟩

end Intake.Buffer
