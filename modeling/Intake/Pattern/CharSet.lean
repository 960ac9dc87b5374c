import Intake.Unicode.Blank
import Intake.Unicode.Capital
import Intake.Unicode.Folding
import Intake.Unicode.Letter
import Intake.Unicode.Number
import Intake.Unicode.Word

/-! Sets of characters as ascending ranges of code points that do not touch, so that equal sets
are written alike. A folded set holds every character whose folded form is that of a member. -/
namespace Intake.Pattern
open Unicode (Run)

structure Range where
  first : Nat
  last : Nat
  deriving DecidableEq, Repr

namespace Range

def Holds (r : Range) (n : Nat) : Prop := r.first ≤ n ∧ n ≤ r.last

instance (r n) : Decidable (Holds r n) := by unfold Holds; infer_instance

/- Each range is proper and lies beyond a gap behind the one before. -/
def Apart (rs : List Range) : Prop :=
  rs.Pairwise (fun a b => a.first ≤ a.last ∧ a.last + 1 < b.first)

/- Ranges in order of their firsts; one that meets the open range is joined to it. -/
def join (opened : Range) : List Range → List Range
  | [] => [opened]
  | r :: rest =>
    if r.first ≤ opened.last + 1 then join ⟨opened.first, max opened.last r.last⟩ rest
    else opened :: join r rest

def joinAll : List Range → List Range
  | [] => []
  | r :: rest => join r rest

def byFirst (a b : Range) : Bool := decide (a.first ≤ b.first)

def proper (rs : List Range) : List Range := rs.filter (fun r => decide (r.first ≤ r.last))

def normal (rs : List Range) : List Range := joinAll ((proper rs).mergeSort byFirst)

theorem sortedJoined {opened s : Range} {rest : List Range}
    (sorted : (opened :: s :: rest).Pairwise (fun a b => a.first ≤ b.first)) :
    (⟨opened.first, max opened.last s.last⟩ :: rest).Pairwise (fun a b => a.first ≤ b.first) := by
  have all := List.pairwise_cons.1 sorted
  exact List.pairwise_cons.2 ⟨fun t ht => all.1 t (List.mem_cons_of_mem _ ht),
    (List.pairwise_cons.1 all.2).2⟩

theorem joinFirst {rs : List Range} (opened r : Range)
    (sorted : (opened :: rs).Pairwise (fun a b => a.first ≤ b.first)) (h : r ∈ join opened rs) :
    opened.first ≤ r.first := by
  induction rs generalizing opened with
  | nil => simp [join] at h; simp [h]
  | cons s rest ih =>
    have all := List.pairwise_cons.1 sorted
    unfold join at h
    split at h
    · exact ih ⟨opened.first, max opened.last s.last⟩ (sortedJoined sorted) h
    · rcases List.mem_cons.1 h with rfl | h
      · exact Nat.le_refl _
      · exact Nat.le_trans (all.1 s List.mem_cons_self) (ih s all.2 h)

theorem apartJoin {rs : List Range} (opened : Range)
    (sorted : (opened :: rs).Pairwise (fun a b => a.first ≤ b.first))
    (proper : ∀ r ∈ opened :: rs, r.first ≤ r.last) : Apart (join opened rs) := by
  induction rs generalizing opened with
  | nil => simp [join, Apart]
  | cons s rest ih =>
    have all := List.pairwise_cons.1 sorted
    have right := proper opened List.mem_cons_self
    have others : ∀ r ∈ s :: rest, r.first ≤ r.last :=
      fun r hr => proper r (List.mem_cons_of_mem _ hr)
    unfold join
    split
    · refine ih _ (sortedJoined sorted) (fun r hr => ?_)
      rcases List.mem_cons.1 hr with rfl | hr
      · exact Nat.le_trans right (Nat.le_max_left _ _)
      · exact others r (List.mem_cons_of_mem _ hr)
    · refine List.pairwise_cons.2 ⟨fun t ht => ?_, ih s all.2 others⟩
      have := joinFirst s t all.2 ht
      omega

theorem memberJoin {rs : List Range} (opened : Range) (n : Nat)
    (sorted : (opened :: rs).Pairwise (fun a b => a.first ≤ b.first))
    (proper : ∀ r ∈ opened :: rs, r.first ≤ r.last) :
    (∃ r ∈ join opened rs, r.Holds n) ↔ ∃ r ∈ opened :: rs, r.Holds n := by
  induction rs generalizing opened with
  | nil => simp [join]
  | cons s rest ih =>
    have all := List.pairwise_cons.1 sorted
    have order := all.1 s List.mem_cons_self
    have right := proper opened List.mem_cons_self
    have others : ∀ r ∈ s :: rest, r.first ≤ r.last :=
      fun r hr => proper r (List.mem_cons_of_mem _ hr)
    have rightS := others s List.mem_cons_self
    unfold join
    split
    · rename_i meets
      have both : Holds ⟨opened.first, max opened.last s.last⟩ n ↔ opened.Holds n ∨ s.Holds n := by
        simp only [Holds]; omega
      rw [ih _ (sortedJoined sorted)]
      · simp [both, or_assoc]
      · intro r hr
        rcases List.mem_cons.1 hr with rfl | hr
        · exact Nat.le_trans right (Nat.le_max_left _ _)
        · exact others r (List.mem_cons_of_mem _ hr)
    · simp only [List.mem_cons, exists_eq_or_imp]
      rw [ih s all.2 others]
      simp

theorem sortedByFirst (rs : List Range) :
    (rs.mergeSort byFirst).Pairwise (fun a b => a.first ≤ b.first) :=
  (List.pairwise_mergeSort (by simp only [byFirst, decide_eq_true_eq]; omega)
    (by simp only [byFirst, Bool.or_eq_true, decide_eq_true_eq]; omega) rs).imp
    (by simp [byFirst])

theorem properSorted (rs : List Range) :
    ∀ r ∈ (proper rs).mergeSort byFirst, r.first ≤ r.last :=
  fun _ hr => by simpa using (List.mem_filter.1 (List.mem_mergeSort.1 hr)).2

theorem apartNormal (rs : List Range) : Apart (normal rs) := by
  have sorted := sortedByFirst (proper rs)
  have right := properSorted rs
  unfold normal
  generalize (proper rs).mergeSort byFirst = ordered at sorted right ⊢
  cases ordered with
  | nil => simp [joinAll, Apart]
  | cons r rest => exact apartJoin r sorted right

theorem memberNormal (rs : List Range) (n : Nat) :
    (∃ r ∈ normal rs, r.Holds n) ↔ ∃ r ∈ rs, r.Holds n := by
  have sorted := sortedByFirst (proper rs)
  have right := properSorted rs
  have kept : (∃ r ∈ (proper rs).mergeSort byFirst, r.Holds n) ↔ ∃ r ∈ rs, r.Holds n := by
    simp only [List.mem_mergeSort]
    constructor
    · rintro ⟨r, hr, holds⟩; exact ⟨r, (List.mem_filter.1 hr).1, holds⟩
    · rintro ⟨r, hr, holds⟩
      exact ⟨r, List.mem_filter.2 ⟨hr, by simpa using Nat.le_trans holds.1 holds.2⟩, holds⟩
  rw [← kept]
  unfold normal
  generalize (proper rs).mergeSort byFirst = ordered at sorted right ⊢
  cases ordered with
  | nil => simp [joinAll]
  | cons r rest => exact memberJoin r n sorted right

end Range

structure CharSet where
  ranges : List Range
  apart : Range.Apart ranges
  deriving DecidableEq, Repr

namespace CharSet

def ofRanges (rs : List Range) : CharSet := ⟨Range.normal rs, Range.apartNormal rs⟩

def ofRuns (rs : List Run) : CharSet :=
  ofRanges (rs.flatMap (fun r =>
    if r.stride = 1 then [⟨r.first, r.last⟩] else r.members.map (fun n => ⟨n, n⟩)))

/- The ranges ascend, so the first that begins beyond a code point ends the search for it. -/
def within (n : Nat) : List Range → Bool
  | [] => false
  | r :: rest => if n < r.first then false else decide (n ≤ r.last) || within n rest

def contains (s : CharSet) (n : Nat) : Bool := within n s.ranges

def holds (s : CharSet) (c : Char) : Bool := s.contains c.toNat

theorem withinIff {n : Nat} {rs : List Range} (apart : Range.Apart rs) :
    within n rs = true ↔ ∃ r ∈ rs, r.Holds n := by
  induction rs with
  | nil => simp [within]
  | cons r rest ih =>
    have all := List.pairwise_cons.1 apart
    unfold within
    split
    · rename_i early
      simp only [Bool.false_eq_true, false_iff, not_exists, not_and]
      intro q hq holds
      have := holds.1
      rcases List.mem_cons.1 hq with rfl | hq
      · omega
      · have := all.1 q hq; omega
    · rename_i late
      have reached : r.first ≤ n := Nat.le_of_not_lt late
      simp [ih all.2, Range.Holds, reached]

theorem containsIff (s : CharSet) (n : Nat) :
    s.contains n = true ↔ ∃ r ∈ s.ranges, r.Holds n := withinIff s.apart

theorem containsOfRanges (rs : List Range) (n : Nat) :
    (ofRanges rs).contains n = true ↔ ∃ r ∈ rs, r.Holds n := by
  rw [containsIff]; exact Range.memberNormal rs n

end CharSet

/- The last code point of all. -/
def codeLimit : Nat := 0x10FFFF

/- What lies between ascending ranges, from a code point on. -/
def gapsFrom (start : Nat) : List Range → List Range
  | [] => [⟨start, codeLimit⟩]
  | r :: rest =>
    if start < r.first then ⟨start, r.first - 1⟩ :: gapsFrom (r.last + 1) rest
    else gapsFrom (r.last + 1) rest

namespace CharSet

def none : CharSet := ofRanges []

def range (first last : Char) : CharSet := ofRanges [⟨first.toNat, last.toNat⟩]

def single (c : Char) : CharSet := range c c

def ofList (cs : List Char) : CharSet := ofRanges (cs.map (fun c => ⟨c.toNat, c.toNat⟩))

def union (a b : CharSet) : CharSet := ofRanges (a.ranges ++ b.ranges)

def unionAll (ss : List CharSet) : CharSet := ofRanges (ss.flatMap (·.ranges))

def complement (a : CharSet) : CharSet := ofRanges (gapsFrom 0 a.ranges)

def both (a b : CharSet) : CharSet := (a.complement.union b.complement).complement

def without (a b : CharSet) : CharSet := a.both b.complement

/- What is in one of two sets but not in both. -/
def oneOf (a b : CharSet) : CharSet := (a.union b).without (a.both b)

def ofCodes (ns : List Nat) : CharSet := ofRanges (ns.map (fun n => ⟨n, n⟩))

/- The folded forms of the members join, and then all that folds to what is there. -/
def folded (a : CharSet) : CharSet :=
  let folds := Unicode.foldings
  let forms := a.union (ofCodes ((folds.filter (fun p => a.contains p.1)).map (·.2)))
  forms.union (ofCodes ((folds.filter (fun p => forms.contains p.2)).map (·.1)))

/- A character in either case, with its kin outside the alphabet. -/
def anyCase (c : Char) : CharSet := (single c).folded

/- The only member, if there is just one. -/
def only? (a : CharSet) : Option Nat :=
  match a.ranges with
  | [r] => if r.first = r.last then some r.first else Option.none
  | _ => Option.none

def blank : CharSet := ofRuns Unicode.blankRuns

def digit : CharSet := ofRuns Unicode.digitRuns

def letter : CharSet := ofRuns Unicode.letterRuns

def capital : CharSet := ofRuns Unicode.capitalRuns

def uppercase : CharSet := ofRuns (Unicode.capitalRuns ++ Unicode.otherUppercaseRuns)

def number : CharSet :=
  ofRuns (Unicode.digitRuns ++ Unicode.letterNumberRuns ++ Unicode.otherNumberRuns)

/- Letters, marks, decimal digits, connector punctuation and the two joiners. -/
def word : CharSet :=
  ofRuns (Unicode.letterRuns ++ Unicode.markRuns ++ Unicode.digitRuns ++ Unicode.connectorRuns ++
    Unicode.joinerRuns)

@[simp] theorem holdsSingle (a c : Char) : (single a).holds c = decide (c = a) := by
  have same : c.toNat = a.toNat ↔ c = a := Char.toNat_inj
  rw [Bool.eq_iff_iff]
  simp only [holds, single, range, containsOfRanges, List.mem_singleton, exists_eq_left,
    Range.Holds, decide_eq_true_eq, ← same]
  omega

@[simp] theorem holdsOfList (cs : List Char) (c : Char) :
    (ofList cs).holds c = decide (c ∈ cs) := by
  rw [Bool.eq_iff_iff]
  simp only [holds, ofList, containsOfRanges, List.mem_map, Range.Holds, decide_eq_true_eq]
  constructor
  · rintro ⟨r, ⟨d, hd, rfl⟩, low, high⟩
    have : c.toNat = d.toNat := by simp at low high; omega
    exact Char.toNat_inj.1 this ▸ hd
  · exact fun h => ⟨_, ⟨c, h, rfl⟩, Nat.le_refl _, Nat.le_refl _⟩

@[simp] theorem holdsUnion (a b : CharSet) (c : Char) :
    (a.union b).holds c = (a.holds c || b.holds c) := by
  rw [Bool.eq_iff_iff]
  simp only [holds, union, Bool.or_eq_true]
  rw [containsOfRanges, containsIff, containsIff]
  simp only [List.mem_append, or_and_right, exists_or]

end CharSet

end Intake.Pattern
