import Intake.Normalization

/-! Normalized texts. Two texts that differ in how their lines end and in NUL characters are
normalized alike: NULs are gone before endings are looked at, a pair is one ending, and so is a
return without a newline. What is normalized holds neither, so it stays as it is. -/
namespace Intake.Normalization

/- Some newlines, perhaps none or all, are written as pairs. -/
inductive Paired : Text → Text → Prop where
  | nil : Paired [] []
  | keep {t u} (c : Char) (tail : Paired t u) : Paired (c :: t) (c :: u)
  | pair {t u} (tail : Paired t u) : Paired ('\n' :: t) ('\x0d' :: '\n' :: u)

/- All newlines are written as returns. -/
def returned (t : Text) : Text := t.map (fun c => if c = '\n' then '\x0d' else c)

/- NUL characters are put in at any places. -/
inductive Scattered : Text → Text → Prop where
  | nil : Scattered [] []
  | keep {t u} (c : Char) (tail : Scattered t u) : Scattered (c :: t) (c :: u)
  | nul {t u} (tail : Scattered t u) : Scattered t ('\x00' :: u)

theorem dropScattered {t u : Text} (scattered : Scattered t u) : dropNuls u = dropNuls t := by
  induction scattered with
  | nil => rfl
  | keep c _ ih =>
    unfold dropNuls at ih ⊢
    rw [List.filter_cons, List.filter_cons, ih]
  | nul _ ih => exact ih

/- A pair is not torn apart by leaving out NULs, and none is made. -/
theorem dropPaired {t u : Text} (paired : Paired t u) : Paired (dropNuls t) (dropNuls u) := by
  induction paired with
  | nil => exact .nil
  | @keep t u c _ ih =>
    unfold dropNuls at ih ⊢
    by_cases nul : c = '\x00'
    · subst nul; exact ih
    · rw [List.filter_cons_of_pos (by simpa using nul), List.filter_cons_of_pos (by simpa using nul)]
      exact .keep c ih
  | pair _ ih => exact .pair ih

theorem memberDrop {t : Text} {c : Char} : c ∈ dropNuls t ↔ c ∈ t ∧ c ≠ '\x00' := by
  simp [dropNuls]

theorem dropClean {t : Text} (clean : '\x00' ∉ t) : dropNuls t = t := by
  refine List.filter_eq_self.2 fun c hc => ?_
  have other : c ≠ '\x00' := fun same => clean (same ▸ hc)
  simpa using other

theorem foldOther {c : Char} (other : c ≠ '\x0d') (t : Text) :
    foldPairs (c :: t) = c :: foldPairs t :=
  foldPairs.eq_2 c t fun _ same => absurd same other

/- Of a text without returns the pairs are folded back. -/
theorem foldPaired {t u : Text} (paired : Paired t u) (clean : '\x0d' ∉ t) : foldPairs u = t := by
  induction paired with
  | nil => rfl
  | keep c _ ih =>
    rw [List.mem_cons, not_or] at clean
    rw [foldOther (Ne.symm clean.1), ih clean.2]
  | pair _ ih =>
    have rest := ih (fun inside => clean (List.mem_cons_of_mem _ inside))
    exact congrArg (List.cons '\n') rest

theorem pairedSame (t : Text) : Paired t t := by
  induction t with
  | nil => exact .nil
  | cons c t ih => exact .keep c ih

theorem foldClean {t : Text} (clean : '\x0d' ∉ t) : foldPairs t = t := foldPaired (pairedSame t) clean

/- Without newlines there are no pairs. -/
theorem foldLone {t : Text} (lone : '\n' ∉ t) : foldPairs t = t := by
  fun_induction foldPairs t with
  | case1 => simp at lone
  | case2 c t _ ih => rw [ih (fun inside => lone (List.mem_cons_of_mem _ inside))]
  | case3 => rfl

theorem returnsClean {t : Text} (clean : '\x0d' ∉ t) : foldReturns t = t := by
  refine (List.map_congr_left fun c hc => ?_).trans (List.map_id t)
  refine if_neg fun same => ?_
  subst same
  exact clean hc

theorem memberFold {t : Text} {c : Char} (h : c ∈ foldPairs t) : c ∈ t := by
  fun_induction foldPairs t with
  | case1 t ih =>
    rcases List.mem_cons.1 h with rfl | h
    · simp
    · simp [ih h]
  | case2 d t _ ih =>
    rcases List.mem_cons.1 h with rfl | h
    · exact List.mem_cons_self
    · exact List.mem_cons_of_mem _ (ih h)
  | case3 => exact h

/- What is normalized holds no NUL and no return. -/
theorem normalizeHolds {t : Text} {c : Char} (h : c ∈ normalize t) : c ≠ '\x00' ∧ c ≠ '\x0d' := by
  obtain ⟨d, hd, rfl⟩ := List.mem_map.1 h
  have visible := (memberDrop.1 (memberFold hd)).2
  split
  · decide
  · rename_i other
    exact ⟨visible, other⟩

theorem normalizeClean {t : Text} (noNul : '\x00' ∉ t) (noReturn : '\x0d' ∉ t) : normalize t = t := by
  rw [normalize, dropClean noNul, foldClean noReturn, returnsClean noReturn]

theorem normalizeTwice (t : Text) : normalize (normalize t) = normalize t :=
  normalizeClean (fun h => (normalizeHolds h).1 rfl) (fun h => (normalizeHolds h).2 rfl)

theorem normalizeScattered {t u : Text} (scattered : Scattered t u) : normalize u = normalize t := by
  rw [normalize, normalize, dropScattered scattered]

theorem normalizePaired {t u : Text} (clean : '\x0d' ∉ t) (paired : Paired t u) :
    normalize u = normalize t := by
  have noReturn : '\x0d' ∉ dropNuls t := fun h => clean (memberDrop.1 h).1
  rw [normalize, normalize, foldPaired (dropPaired paired) noReturn, foldClean noReturn]

/- A text without returns comes back from them, NULs left out. -/
theorem returnsReturned {t : Text} (clean : '\x0d' ∉ t) :
    foldReturns (dropNuls (returned t)) = dropNuls t := by
  induction t with
  | nil => rfl
  | cons c t ih =>
    rw [List.mem_cons, not_or] at clean
    have rest := ih clean.2
    by_cases newline : c = '\n'
    · subst newline
      exact congrArg ('\n' :: ·) rest
    · by_cases nul : c = '\x00'
      · subst nul; exact rest
      · have other : c ≠ '\x0d' := Ne.symm clean.1
        simp only [returned, dropNuls, foldReturns] at rest ⊢
        simp [newline, nul, other, rest]

theorem normalizeReturned {t : Text} (clean : '\x0d' ∉ t) : normalize (returned t) = normalize t := by
  have lone : '\n' ∉ dropNuls (returned t) := by
    intro h
    obtain ⟨c, -, same⟩ := List.mem_map.1 (memberDrop.1 h).1
    split at same
    · exact absurd same (by decide)
    · rename_i other; exact other same
  have noReturn : '\x0d' ∉ dropNuls t := fun h => clean (memberDrop.1 h).1
  rw [normalize, normalize, foldLone lone, returnsReturned clean, foldClean noReturn,
    returnsClean noReturn]

/- A return is as long as a newline. -/
theorem returnsSize (t : Text) : Text.size (foldReturns t) = t.size := by
  induction t with
  | nil => rfl
  | cons c t ih =>
    have same : (if c = '\x0d' then '\n' else c).utf8Size = c.utf8Size := by
      split
      · rename_i lone
        subst lone
        rfl
      · rfl
    unfold foldReturns at ih ⊢
    rw [List.map_cons, Text.sizeCons, Text.sizeCons, ih, same]

/- The places at which a newline follows a return. -/
def pairs (t : Text) : Nat := (t.zip t.tail).count ('\x0d', '\n')

theorem pairsOther {c : Char} (other : c ≠ '\x0d') (t : Text) : pairs (c :: t) = pairs t := by
  cases t with
  | nil => rfl
  | cons d t =>
    have differ : (c, d) ≠ ('\x0d', '\n') := fun same => other (congrArg Prod.fst same)
    exact List.count_cons_of_ne differ

theorem pairsLone {t : Text} (lone : t.head? ≠ some '\n') : pairs ('\x0d' :: t) = pairs t := by
  cases t with
  | nil => rfl
  | cons d t =>
    have differ : ('\x0d', d) ≠ ('\x0d', '\n') := fun same =>
      lone (congrArg some (congrArg Prod.snd same))
    exact List.count_cons_of_ne differ

/- Every pair loses its return. -/
theorem foldedSize (t : Text) : Text.size (foldPairs t) + pairs t = t.size := by
  fun_induction foldPairs t with
  | case1 t ih =>
    have one : pairs ('\x0d' :: '\n' :: t) = pairs ('\n' :: t) + 1 := List.count_cons_self
    have byte : Char.utf8Size '\x0d' = 1 := rfl
    rw [one, pairsOther (by decide)]
    simp only [Text.sizeCons]
    omega
  | case2 c t single ih =>
    have fewer : pairs (c :: t) = pairs t := by
      by_cases returns : c = '\x0d'
      · subst returns
        refine pairsLone fun newline => ?_
        obtain ⟨rest, rfl⟩ := List.head?_eq_some_iff.1 newline
        exact single rest rfl rfl
      · exact pairsOther returns t
    rw [fewer, Text.sizeCons, Text.sizeCons]
    omega
  | case3 => rfl

theorem droppedSize (t : Text) : Text.size (dropNuls t) + nuls t = t.size := by
  induction t with
  | nil => rfl
  | cons c t ih =>
    unfold dropNuls nuls at ih ⊢
    by_cases nul : c = '\x00'
    · subst nul
      have byte : Char.utf8Size '\x00' = 1 := rfl
      rw [List.filter_cons_of_neg (by simp), List.count_cons_self, Text.sizeCons]
      omega
    · rw [List.filter_cons_of_pos (by simpa using nul), List.count_cons_of_ne nul, Text.sizeCons,
        Text.sizeCons]
      omega

theorem normalizedSize (t : Text) :
    Text.size (normalize t) + nuls t + pairs (dropNuls t) = t.size := by
  have folded := foldedSize (dropNuls t)
  have dropped := droppedSize t
  rw [normalize, returnsSize]
  omega

theorem normalizeSize (t : Text) : Text.size (normalize t) ≤ t.size := by
  have whole := normalizedSize t
  omega

end Intake.Normalization
