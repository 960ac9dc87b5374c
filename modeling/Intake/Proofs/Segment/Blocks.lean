import Intake.Segment.Window

/-! Blocks of fixed size. They make up the list they are cut from, none is empty and none is
longer than asked for. -/
namespace Intake.Window
variable {α : Type} {n : Nat}

theorem blocksNil : blocksOf n ([] : List α) = [] := by unfold blocksOf; simp

theorem blocksShort {xs : List α} (some : xs ≠ []) (short : xs.length ≤ n) : blocksOf n xs = [xs] := by
  have all : xs.length ≤ max n 1 := by omega
  unfold blocksOf
  rw [if_neg some, List.take_of_length_le all, List.drop_of_length_le all, blocksNil]

theorem blocksFull {xs ys : List α} (positive : 0 < n) (full : xs.length = n) :
    blocksOf n (xs ++ ys) = xs :: blocksOf n ys := by
  have one : max n 1 = xs.length := by omega
  have some : xs ++ ys ≠ [] := by
    intro none
    have := congrArg List.length none
    simp only [List.length_append, List.length_nil] at this; omega
  rw [blocksOf, if_neg some, one, List.take_left, List.drop_left]

theorem blocksFlatten (n : Nat) (xs : List α) : (blocksOf n xs).flatten = xs := by
  fun_induction blocksOf n xs with
  | case1 => rfl
  | case2 xs some ih => rw [List.flatten_cons, ih, List.take_append_drop]

theorem blocksBounded {xs b : List α} (positive : 0 < n) (h : b ∈ blocksOf n xs) :
    b ≠ [] ∧ b.length ≤ n := by
  fun_induction blocksOf n xs with
  | case1 => simp at h
  | case2 xs some ih =>
    rcases List.mem_cons.1 h with rfl | h
    · refine ⟨fun none => ?_, by rw [List.length_take]; omega⟩
      rcases List.take_eq_nil_iff.1 none with zero | none
      · omega
      · exact some none
    · exact ih h

/- Only the last block may be short. -/
theorem blocksWhole (positive : 0 < n) (xs : List α) : ∀ b ∈ (blocksOf n xs).dropLast, b.length = n := by
  have one : max n 1 = n := Nat.max_eq_left positive
  fun_induction blocksOf n xs with
  | case1 => simp
  | case2 xs some ih =>
    rw [one] at ih ⊢
    by_cases last : xs.drop n = []
    · rw [last, blocksNil]
      simp
    · have enough : n ≤ xs.length := by
        rw [List.drop_eq_nil_iff] at last
        omega
      have more : blocksOf n (xs.drop n) ≠ [] := by
        intro none
        have flat := blocksFlatten n (xs.drop n)
        rw [none] at flat
        exact last flat.symm
      rw [List.dropLast_cons_of_ne_nil more]
      intro b hb
      rcases List.mem_cons.mp hb with rfl | later
      · rw [List.length_take, Nat.min_eq_left enough]
      · exact ih b later

theorem blocksMap {β : Type} (f : α → β) (n : Nat) (xs : List α) :
    blocksOf n (xs.map f) = (blocksOf n xs).map (List.map f) := by
  fun_induction blocksOf n xs with
  | case1 => rw [List.map_nil, blocksNil, List.map_nil]
  | case2 xs some ih =>
    rw [blocksOf, if_neg (by simpa using some), ← List.map_take, ← List.map_drop, ih, List.map_cons]

/- Behind full blocks counting starts anew. -/
theorem blocksAppend (positive : 0 < n) {xs : List α} (full : n ∣ xs.length) (ys : List α) :
    blocksOf n (xs ++ ys) = blocksOf n xs ++ blocksOf n ys := by
  obtain ⟨count, length⟩ := full
  induction count generalizing xs with
  | zero =>
    have none : xs = [] := List.length_eq_zero_iff.mp length
    rw [none, List.nil_append, blocksNil, List.nil_append]
  | succ count ih =>
    rw [Nat.mul_succ] at length
    have first : (xs.take n).length = n := by rw [List.length_take]; omega
    have later : (xs.drop n).length = n * count := by rw [List.length_drop]; omega
    have parts : xs = xs.take n ++ xs.drop n := (List.take_append_drop n xs).symm
    rw [parts, List.append_assoc, blocksFull positive first, blocksFull positive first, ih later,
      List.cons_append]

end Intake.Window
