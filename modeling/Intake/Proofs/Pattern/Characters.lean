import Intake.Pattern.CharSet

/-! Which characters some sets hold. No run of word characters meets a blank one, and no
character folds to the newline or from it; so neither words nor letters in either case hold a
newline. -/
namespace Intake.Pattern.CharSet
open Unicode (Run isBlank coversIff)

theorem codeNewline : ('\n').toNat = 10 := rfl

/- What runs hold lies between the first and the last of one of them. -/
theorem ofRunsBetween {rs : List Run} {n : Nat} (h : (ofRuns rs).contains n = true) :
    ∃ r ∈ rs, r.first ≤ n ∧ n ≤ max r.first r.last := by
  obtain ⟨range, member, holds⟩ := (containsOfRanges _ n).1 h
  obtain ⟨r, hr, inRun⟩ := List.mem_flatMap.1 member
  refine ⟨r, hr, ?_⟩
  split at inRun
  · rw [List.mem_singleton.1 inRun] at holds
    exact ⟨holds.1, Nat.le_trans holds.2 (Nat.le_max_right _ _)⟩
  · obtain ⟨k, hk, rfl⟩ := List.mem_map.1 inRun
    obtain ⟨i, hi, rfl⟩ := List.mem_map.1 hk
    have steps : i ≤ (r.last - r.first) / r.stride := Nat.le_of_lt_succ (List.mem_range.1 hi)
    have bound : i * r.stride ≤ r.last - r.first :=
      Nat.le_trans (Nat.mul_le_mul_right _ steps) (Nat.div_mul_le_self _ _)
    obtain ⟨low, high⟩ : r.first + i * r.stride ≤ n ∧ n ≤ r.first + i * r.stride := holds
    exact ⟨by omega, by omega⟩

theorem blankBetween {c : Char} (blank : isBlank c = true) :
    ∃ b ∈ Unicode.blankRuns, b.first ≤ c.toNat ∧ c.toNat ≤ b.last := by
  have sorted : Unicode.blankRuns.Pairwise (fun a b => a.first ≤ b.first) := by decide
  obtain ⟨b, hb, low, high, -⟩ := (coversIff sorted).1 blank
  exact ⟨b, hb, low, high⟩

/- Stretches without a blank character; those that hold most letters come first. -/
def blankFree : List Range :=
  [⟨0xA1, 0x167F⟩, ⟨0x3001, 0x10FFFF⟩, ⟨0x1681, 0x1FFF⟩, ⟨0x2060, 0x2FFF⟩, ⟨0x21, 0x84⟩, ⟨0x86, 0x9F⟩,
   ⟨0x200B, 0x2027⟩, ⟨0x2030, 0x205E⟩]

theorem blankFreeApart : ∀ g ∈ blankFree, ∀ b ∈ Unicode.blankRuns, b.last < g.first ∨ g.last < b.first := by
  decide

/- Each of the runs lies in one of these stretches; comparisons of literals are all there is to do. -/
def apartFromBlanks (rs : List Run) : Bool :=
  rs.all (fun r => blankFree.any (fun g =>
    Nat.ble g.first r.first && Nat.ble r.first g.last && Nat.ble r.last g.last))

theorem ofRunsBlank {rs : List Run} (apart : apartFromBlanks rs = true) {c : Char}
    (blank : isBlank c = true) : (ofRuns rs).holds c = false := by
  refine Bool.eq_false_iff.2 fun h => ?_
  obtain ⟨r, hr, first, last⟩ := ofRunsBetween h
  obtain ⟨b, hb, low, high⟩ := blankBetween blank
  obtain ⟨g, hg, around⟩ := List.any_eq_true.1 (List.all_eq_true.1 apart r hr)
  simp only [Bool.and_eq_true, Nat.ble_eq] at around
  have between := blankFreeApart g hg b hb
  omega

theorem wordRunsApart : apartFromBlanks (Unicode.letterRuns ++ Unicode.markRuns ++ Unicode.digitRuns ++
    Unicode.connectorRuns ++ Unicode.joinerRuns) = true := by
  -- Each list is gone through by itself, not at the end of those it is appended to.
  simp only [apartFromBlanks, List.all_append]
  decide +kernel

theorem wordBlank {c : Char} (blank : isBlank c = true) : word.holds c = false :=
  ofRunsBlank wordRunsApart blank

/- Digits are among what makes up words. -/
theorem digitBlank {c : Char} (blank : isBlank c = true) : digit.holds c = false := by
  have parts := wordRunsApart
  simp only [apartFromBlanks, List.all_append, Bool.and_eq_true] at parts
  obtain ⟨⟨⟨-, digits⟩, -⟩, -⟩ := parts
  exact ofRunsBlank digits blank

theorem wordNewline : word.holds '\n' = false := wordBlank Unicode.blankNewline

theorem holdsOfCodes (ns : List Nat) (c : Char) : (ofCodes ns).holds c = decide (c.toNat ∈ ns) := by
  rw [Bool.eq_iff_iff, decide_eq_true_eq, holds, ofCodes, containsOfRanges]
  constructor
  · rintro ⟨r, hr, low, high⟩
    obtain ⟨k, hk, rfl⟩ := List.mem_map.1 hr
    have same : c.toNat = k := Nat.le_antisymm high low
    exact same ▸ hk
  · exact fun h => ⟨⟨c.toNat, c.toNat⟩, List.mem_map.2 ⟨_, h, rfl⟩, Nat.le_refl _, Nat.le_refl _⟩

theorem foldingsNewline {p : Nat × Nat} (h : p ∈ Unicode.foldings) : p.1 ≠ 10 ∧ p.2 ≠ 10 := by
  obtain ⟨s, hs, listed⟩ := List.mem_flatMap.1 h
  obtain ⟨n, hn, rfl⟩ := List.mem_map.1 listed
  obtain ⟨i, -, rfl⟩ := List.mem_map.1 hn
  obtain ⟨beyond, foldedBeyond⟩ := Unicode.shiftsBeyond s hs
  simp only
  constructor
  · omega
  · omega

theorem anyCaseNewline {c : Char} (other : '\n' ≠ c) : (anyCase c).holds '\n' = false := by
  have never : ∀ (q : Nat × Nat → Bool) (side : Nat × Nat → Nat),
      (∀ p ∈ Unicode.foldings, side p ≠ 10) →
      (ofCodes ((Unicode.foldings.filter q).map side)).holds '\n' = false := by
    intro q side apart
    rw [holdsOfCodes, decide_eq_false_iff_not, codeNewline]
    intro member
    obtain ⟨p, hp, same⟩ := List.mem_map.1 member
    exact apart p (List.mem_filter.1 hp).1 same
  simp only [anyCase, folded, holdsUnion, holdsSingle, other, decide_false, Bool.false_or]
  rw [never _ _ fun p hp => (foldingsNewline hp).2, never _ _ fun p hp => (foldingsNewline hp).1]
  rfl

theorem holdsRange (first last c : Char) :
    (range first last).holds c = decide (first.toNat ≤ c.toNat ∧ c.toNat ≤ last.toNat) := by
  rw [Bool.eq_iff_iff, decide_eq_true_eq, holds, range, containsOfRanges]
  simp only [List.mem_singleton, exists_eq_left, Range.Holds]

theorem rangeBlank {first last : Char}
    (apart : ∀ b ∈ Unicode.blankRuns, b.last < first.toNat ∨ last.toNat < b.first) {c : Char}
    (blank : isBlank c = true) : (range first last).holds c = false := by
  obtain ⟨b, hb, low, high⟩ := blankBetween blank
  have between := apart b hb
  rw [holdsRange, decide_eq_false_iff_not]
  omega

end Intake.Pattern.CharSet
