import Intake.Proofs.Signature.Frequency
import Intake.Proofs.Table
import Mathlib.Algebra.GroupWithZero.Nat
import Mathlib.Data.Finset.Card
import Mathlib.Data.List.FinRange

/-! Counting. A table of frequencies lists the distinct words in ascending order, each with the number
of its occurrences; sorted words that are rid of repetitions are its keys. Lines that open alike are
counted by their heads; counted by their positions they are as many, and a line that opens like
another one never does so alone. -/
namespace Intake.Frequency

section Words

/- The first run is one of the first word. -/
theorem runsOpen (w : Text) (rest : List Text) : ∃ n others, runs (w :: rest) = (w, n) :: others := by
  unfold runs
  cases runs rest with
  | nil => exact ⟨1, [], rfl⟩
  | cons r others =>
    obtain ⟨v, n⟩ := r
    by_cases same : v = w
    · exact ⟨n + 1, others, by simp [same]⟩
    · exact ⟨1, (v, n) :: others, by simp [same]⟩

theorem runsAgain (w : Text) (rest : List Text) :
    (runs (w :: w :: rest)).map Prod.fst = (runs (w :: rest)).map Prod.fst := by
  obtain ⟨n, others, opens⟩ := runsOpen w rest
  have further : runs (w :: w :: rest) = (w, n + 1) :: others := by
    rw [runs, opens]
    exact if_pos rfl
  simp only [further, opens, List.map_cons]

theorem runsOther {v w : Text} (other : w ≠ v) (rest : List Text) :
    (runs (w :: v :: rest)).map Prod.fst = w :: (runs (v :: rest)).map Prod.fst := by
  obtain ⟨n, others, opens⟩ := runsOpen v rest
  have further : runs (w :: v :: rest) = (w, 1) :: (v, n) :: others := by
    rw [runs, opens]
    exact if_neg fun same => other same.symm
  simp only [further, opens, List.map_cons]

/- Each run leaves one word of those that repeat it; `kept` are the words left before. -/
theorem repsRuns (w : Text) (rest kept : List Text) :
    List.eraseRepsBy.loop (· == ·) w rest kept = kept.reverse ++ (runs (w :: rest)).map Prod.fst := by
  induction rest generalizing w kept with
  | nil => simp [List.eraseRepsBy.loop, runs]
  | cons v rest ih =>
    unfold List.eraseRepsBy.loop
    by_cases same : w = v
    · subst same
      simp only [beq_self_eq_true, ih, runsAgain]
    · have other : (w == v) = false := beq_eq_false_iff_ne.mpr same
      simp only [other, ih, runsOther same, List.reverse_cons, List.append_assoc,
        List.singleton_append]

theorem repsKeys (ws : List Text) : ws.eraseReps = (runs ws).map Prod.fst := by
  cases ws with
  | nil => rfl
  | cons w rest => exact repsRuns w rest []

variable (ws : List Text)

theorem vocabularyTally : vocabulary ws = (tally ws).size := by
  rw [vocabulary, repsKeys, List.length_map]
  rfl

/- Distinct words in ascending order, with their counts, are a table. -/
theorem countsAscending : ((ws.dedup.mergeSort inOrder).map fun w => (w, ws.count w)).Pairwise
    (fun a b => compare a.1 b.1 = .lt) := by
  have distinct : (ws.dedup.mergeSort inOrder).Nodup :=
    (List.mergeSort_perm _ _).nodup_iff.mpr ws.nodup_dedup
  have ascending := (sortedInOrder ws.dedup).and distinct
  refine List.pairwise_map.mpr (ascending.imp ?_)
  intro a b both
  obtain ⟨le, apart⟩ := both
  unfold inOrder at le
  cases order : compare a b with
  | lt => rfl
  | eq => exact absurd (Std.LawfulEqOrd.eq_of_compare order) apart
  | gt => simp [order] at le

theorem tallyEntries :
    (tally ws).entries = (ws.dedup.mergeSort inOrder).map fun w => (w, ws.count w) := by
  have same : tally ws = ⟨_, countsAscending ws⟩ := by
    apply Table.sameMembers
    intro p
    obtain ⟨w, n⟩ := p
    rw [← Table.getSome, getTally]
    simp only [List.mem_map, List.mem_mergeSort, List.mem_dedup, Prod.mk.injEq]
    constructor
    · intro found
      split at found
      · rename_i present
        exact ⟨w, present, rfl, Option.some.inj found⟩
      · cases found
    · intro counted
      obtain ⟨v, present, rfl, rfl⟩ := counted
      exact if_pos present
  exact congrArg Table.entries same

theorem tallyDistinct : (tally ws).size = ws.toFinset.card := by
  rw [Table.size, tallyEntries, List.length_map, List.length_mergeSort, List.card_toFinset]

/- The sum runs over the distinct words in ascending order. -/
theorem entropyShares : entropy ws = if ws.isEmpty then 0.0 else
    ((ws.dedup.mergeSort inOrder).map fun w => share ws.length (ws.count w)).foldl (· + ·) (-0.0) := by
  have values : (tally ws).values = (ws.dedup.mergeSort inOrder).map fun w => ws.count w := by
    rw [Table.values, tallyEntries, List.map_map]
    rfl
  rw [entropy, values, List.foldl_map, List.foldl_map]

/- Written out again, the table is as long as the list that was counted. -/
theorem tallyTotal : (tally ws).values.sum = ws.length := by
  have values : (tally ws).values = (runs (ws.mergeSort inOrder)).map (·.2) := rfl
  have spread := congrArg List.length (runsSpread (ws.mergeSort inOrder))
  rw [values]
  simpa [List.length_flatMap] using spread

end Words

section Lines

/- The line at a position is longer than the head, and so is one at another position that opens
alike. -/
def Recurs (chars : Nat) (ls : List Text) (i : Fin ls.length) : Prop :=
  chars < (ls.get i).length ∧
    ∃ j, j ≠ i ∧ chars < (ls.get j).length ∧ (ls.get j).take chars = (ls.get i).take chars

instance (chars : Nat) (ls : List Text) : DecidablePred (Recurs chars ls) := fun i =>
  inferInstanceAs (Decidable (chars < (ls.get i).length ∧
    ∃ j, j ≠ i ∧ chars < (ls.get j).length ∧ (ls.get j).take chars = (ls.get i).take chars))

def recurring (chars : Nat) (ls : List Text) : Nat :=
  (List.finRange ls.length).countP (fun i => decide (Recurs chars ls i))

/- Of the entries of which something holds one is not alone if there is another. -/
theorem countOther {α : Type} [BEq α] [LawfulBEq α] {xs : List α} (distinct : xs.Nodup)
    (P : α → Prop) [DecidablePred P] {x : α} (member : x ∈ xs) (here : P x) :
    1 < xs.countP (fun y => decide (P y)) ↔ ∃ y ∈ xs, y ≠ x ∧ P y := by
  have rest := List.countP_erase (fun y => decide (P y)) xs x
  rw [if_pos ⟨member, decide_eq_true here⟩] at rest
  calc 1 < xs.countP (fun y => decide (P y))
    _ ↔ 0 < (xs.erase x).countP (fun y => decide (P y)) := by omega
    _ ↔ ∃ y ∈ xs.erase x, decide (P y) = true := List.countP_pos_iff
    _ ↔ ∃ y ∈ xs, y ≠ x ∧ P y := by
      simp only [decide_eq_true_eq, distinct.mem_erase_iff, and_assoc, and_left_comm]

variable (chars : Nat) (ls : List Text)

theorem headsPositions : heads chars ls =
    ((List.finRange ls.length).filter (fun i => decide (chars < (ls.get i).length))).map
      (fun i => (ls.get i).take chars) := by
  have whole := List.map_get_finRange ls
  calc heads chars ls
    _ = heads chars ((List.finRange ls.length).map ls.get) := by rw [whole]
    _ = _ := by rw [heads, List.filter_map, List.map_map]; rfl

theorem headsLong : (heads chars ls).length = ls.countP (fun l => decide (chars < l.length)) := by
  rw [heads, List.length_map, List.countP_eq_length_filter]

theorem headCount (head : Text) : (heads chars ls).count head =
    (List.finRange ls.length).countP (fun i =>
      decide (chars < (ls.get i).length ∧ (ls.get i).take chars = head)) := by
  rw [headsPositions, List.count_eq_countP, List.countP_map, List.countP_filter]
  apply List.countP_congr
  intro i _
  simp [and_comm]

/- The head of a line is there more than once if a line at another position has it too. -/
theorem headAgain {i : Fin ls.length} (long : chars < (ls.get i).length) :
    1 < (heads chars ls).count ((ls.get i).take chars) ↔
      ∃ j, j ≠ i ∧ chars < (ls.get j).length ∧ (ls.get j).take chars = (ls.get i).take chars := by
  have other := countOther (List.nodup_finRange ls.length)
    (fun j => chars < (ls.get j).length ∧ (ls.get j).take chars = (ls.get i).take chars)
    (List.mem_finRange i) ⟨long, rfl⟩
  rw [headCount, other]
  simp only [List.mem_finRange, true_and]

theorem recurringHeads : repeatedHeads (heads chars ls) = recurring chars ls := by
  have positions : (heads chars ls).countP (fun h => decide (1 < (heads chars ls).count h)) =
      (List.finRange ls.length).countP (fun i =>
        decide (1 < (heads chars ls).count ((ls.get i).take chars)) &&
          decide (chars < (ls.get i).length)) := by
    conv => lhs; arg 2; rw [headsPositions]
    rw [List.countP_map, List.countP_filter]
    rfl
  rw [repeatedHeadsCount, positions, recurring]
  apply List.countP_congr
  intro i _
  rw [Bool.and_eq_true, decide_eq_true_eq, decide_eq_true_eq, decide_eq_true_eq, and_comm, Recurs]
  exact and_congr_right (headAgain chars ls)

/- Where a line opens like another one, so does the other one. -/
theorem recurringMany : recurring chars ls ≠ 1 := by
  intro single
  have positive : 0 < recurring chars ls := by omega
  obtain ⟨i, member, recurs⟩ := List.countP_pos_iff.mp positive
  have here : Recurs chars ls i := of_decide_eq_true recurs
  have parts := here
  obtain ⟨long, j, apart, longOther, alike⟩ := parts
  have back : Recurs chars ls j := ⟨longOther, i, apart.symm, long, alike.symm⟩
  have more : 1 < recurring chars ls :=
    (countOther (List.nodup_finRange ls.length) (Recurs chars ls) member here).mpr
      ⟨j, List.mem_finRange j, apart, back⟩
  omega

theorem recurringFew : recurring chars ls ≤ (heads chars ls).length := by
  rw [← recurringHeads, repeatedHeadsCount]
  exact List.countP_le_length

theorem repeatabilityRecurring : repeatability chars ls =
    if ls.countP (fun l => decide (chars < l.length)) = 0 then 0.0
    else Ratio.of (recurring chars ls) (ls.countP fun l => decide (chars < l.length)) := by
  rw [repeatability, recurringHeads, headsLong]
  simp only [List.isEmpty_iff_length_eq_zero, headsLong]

end Lines

theorem recurringPerm (chars : Nat) {ls ks : List Text} (same : ks.Perm ls) :
    recurring chars ks = recurring chars ls := by
  rw [← recurringHeads, ← recurringHeads, repeatedHeadsPerm (headsPerm same chars)]

/- Sorted words without repetitions, the table of frequencies and the distinct words are as many, and
the table has their multiplicities, which make up all words. Heads that are there more than once are
as many as lines that open like a line at another position. No count goes by the order. -/
theorem countsAgree (ws ls : List Text) (chars : Nat) :
    let long := ls.countP (fun l => decide (chars < l.length))
    (vocabulary ws = (tally ws).size ∧ (tally ws).size = ws.toFinset.card ∧
      (tally ws).entries = (ws.dedup.mergeSort inOrder).map (fun w => (w, ws.count w)) ∧
      (tally ws).values.sum = ws.length ∧
      entropy ws = if ws.isEmpty then 0.0 else ((ws.dedup.mergeSort inOrder).map
        fun w => share ws.length (ws.count w)).foldl (· + ·) (-0.0)) ∧
    (repeatedHeads (heads chars ls) = recurring chars ls ∧ (heads chars ls).length = long ∧
      (repeatability chars ls = if long = 0 then 0.0 else Ratio.of (recurring chars ls) long) ∧
      recurring chars ls ≠ 1 ∧ recurring chars ls ≤ long) ∧
    (∀ vs, vs.Perm ws → vocabulary vs = vocabulary ws ∧ tally vs = tally ws) ∧
    ∀ ks, ks.Perm ls → recurring chars ks = recurring chars ls ∧
      ks.countP (fun l => decide (chars < l.length)) = long := by
  intro long
  have few := recurringFew chars ls
  rw [headsLong] at few
  constructor
  · exact ⟨vocabularyTally ws, tallyDistinct ws, tallyEntries ws, tallyTotal ws, entropyShares ws⟩
  constructor
  · exact ⟨recurringHeads chars ls, headsLong chars ls, repeatabilityRecurring chars ls,
      recurringMany chars ls, few⟩
  constructor
  · exact fun vs same => ⟨vocabularyPerm same, tallyPerm same⟩
  · exact fun ks same => ⟨recurringPerm chars same, same.countP_eq _⟩

/- Of six lines one has no more than the three characters of a head, and of the others two and two open
alike. -/
theorem fourLinesRecur :
    let ws : List Text := ["no".toList, "é".toList, "no".toList, "a".toList]
    let ls : List Text := ["añbc".toList, "abcd".toList, "añb".toList, "abcd".toList, "añbd".toList,
      "abxd".toList]
    ws.reverse.Perm ws ∧ vocabulary ws.reverse = 3 ∧
    (tally ws.reverse).get? "no".toList = some 2 ∧ (tally ws.reverse).get? "n".toList = none ∧
    ls.reverse.Perm ls ∧ recurring 3 ls.reverse = 4 ∧
    repeatability 3 ls = Ratio.of 4 5 := by
  intro ws ls
  have turnedWords : ws.reverse.Perm ws := List.reverse_perm ws
  have turnedLines : ls.reverse.Perm ls := List.reverse_perm ls
  obtain ⟨⟨size, distinct, -⟩, ⟨-, -, ratio, -⟩, words, lines⟩ := countsAgree ws ls 3
  obtain ⟨sameVocabulary, sameTally⟩ := words ws.reverse turnedWords
  have three : vocabulary ws = 3 := by rw [size, distinct]; decide
  have four : recurring 3 ls = 4 := by decide
  have twice : (tally ws).get? "no".toList = some 2 := by rw [getTally]; decide
  have never : (tally ws).get? "n".toList = none := by rw [getTally]; decide
  have shares : repeatability 3 ls = Ratio.of 4 5 := by rw [ratio, four]; rfl
  rw [sameTally]
  exact ⟨turnedWords, sameVocabulary.trans three, twice, never, turnedLines,
    (lines ls.reverse turnedLines).1.trans four, shares⟩

end Intake.Frequency
