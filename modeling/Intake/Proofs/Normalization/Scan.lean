import Intake.Proofs.Normalization

/-! Normalization in one scan. The three passes come to a single scan that remembers no more than
whether a return stands last before the place it has reached. So a text may be normalized in parts,
unless an ending is torn apart between them, which then counts as two. -/
namespace Intake.Normalization

/- NULs are passed over; a return is written as a newline at once, and the newline that completes it
to a pair is left out. -/
def scan (returned : Bool) : Text → Text
  | [] => []
  | c :: rest =>
    if c = '\x00' then scan returned rest
    else if c = '\x0d' then '\n' :: scan true rest
    else if c = '\n' ∧ returned = true then scan false rest
    else c :: scan false rest

/- Whether a return stands last in a text, or before it if there is nothing but NULs in it. -/
def returnedBehind (returned : Bool) (t : Text) : Bool :=
  ((dropNuls t).getLast?.map (· == '\x0d')).getD returned

/- An ending that is torn apart between two texts. -/
def Torn (a b : Text) : Prop :=
  (dropNuls a).getLast? = some '\x0d' ∧ (dropNuls b).head? = some '\n'

instance (a b : Text) : Decidable (Torn a b) := by unfold Torn; infer_instance

theorem dropNul (t : Text) : dropNuls ('\x00' :: t) = dropNuls t := rfl

theorem dropOther {c : Char} (other : c ≠ '\x00') (t : Text) :
    dropNuls (c :: t) = c :: dropNuls t :=
  List.filter_cons_of_pos (by simpa using other)

section Equations
variable {c : Char} (returned : Bool) (t : Text)

theorem scanNul : scan returned ('\x00' :: t) = scan returned t := rfl

theorem scanReturn : scan returned ('\x0d' :: t) = '\n' :: scan true t := rfl

theorem scanPaired : scan true ('\n' :: t) = scan false t := rfl

theorem scanNewline : scan false ('\n' :: t) = '\n' :: scan false t := rfl

theorem scanOther (visible : c ≠ '\x00') (noReturn : c ≠ '\x0d') (noNewline : c ≠ '\n') :
    scan returned (c :: t) = c :: scan false t := by
  rw [scan, if_neg visible, if_neg noReturn, if_neg fun pair => noNewline pair.1]

theorem returnedNul : returnedBehind returned ('\x00' :: t) = returnedBehind returned t := rfl

theorem returnedOther (visible : c ≠ '\x00') :
    returnedBehind returned (c :: t) = returnedBehind (c == '\x0d') t := by
  rw [returnedBehind, dropOther visible, List.getLast?_cons, returnedBehind]
  cases (dropNuls t).getLast? <;> rfl

end Equations

theorem scanDropped (returned : Bool) (t : Text) : scan returned (dropNuls t) = scan returned t := by
  induction t generalizing returned with
  | nil => rfl
  | cons c t ih =>
    by_cases nul : c = '\x00'
    · subst nul
      rw [dropNul, scanNul, ih]
    · rw [dropOther nul, scan, scan]
      simp only [ih]

/- A return before a text matters only where the text opens with a newline. -/
theorem scanLone {t : Text} (lone : (dropNuls t).head? ≠ some '\n') : scan true t = scan false t := by
  induction t with
  | nil => rfl
  | cons c t ih =>
    by_cases nul : c = '\x00'
    · subst nul
      exact ih lone
    · rw [dropOther nul] at lone
      have other : c ≠ '\n' := fun same => lone (congrArg some same)
      rw [scan, scan]
      simp only [nul, other, false_and, if_false]

theorem scanCompleted {t : Text} (newline : (dropNuls t).head? = some '\n') :
    scan false t = '\n' :: scan true t := by
  induction t with
  | nil => cases newline
  | cons c t ih =>
    by_cases nul : c = '\x00'
    · subst nul
      exact ih newline
    · rw [dropOther nul] at newline
      obtain rfl : c = '\n' := Option.some.inj newline
      rw [scanNewline, scanPaired]

/- In a text without NULs the scan folds what the two passes fold. -/
theorem scanFolds {t : Text} (clean : '\x00' ∉ t) : scan false t = foldReturns (foldPairs t) := by
  fun_induction foldPairs t with
  | case1 t ih =>
    rw [scanReturn, scanPaired, ih fun inside => clean (by simp [inside])]
    rfl
  | case2 c t single ih =>
    rw [List.mem_cons, not_or] at clean
    have rest := ih clean.2
    by_cases returns : c = '\x0d'
    · subst returns
      have lone : (dropNuls t).head? ≠ some '\n' := fun newline => by
        rw [dropClean clean.2] at newline
        obtain ⟨u, rfl⟩ := List.head?_eq_some_iff.1 newline
        exact single u rfl rfl
      rw [scanReturn, scanLone lone, rest]
      rfl
    · have kept : foldReturns (c :: foldPairs t) = c :: foldReturns (foldPairs t) := by
        rw [foldReturns, List.map_cons, if_neg returns]
        rfl
      rw [kept, ← rest]
      by_cases newline : c = '\n'
      · subst newline
        rw [scanNewline]
      · rw [scanOther false t (Ne.symm clean.1) returns newline]
  | case3 => rfl

theorem normalizeScan (t : Text) : normalize t = scan false t := by
  have clean : '\x00' ∉ dropNuls t := fun inside => (memberDrop.1 inside).2 rfl
  rw [normalize, ← scanFolds clean, scanDropped]

/- A scan may stop anywhere and go on from what it remembers. -/
theorem scanAppend (returned : Bool) (a b : Text) :
    scan returned (a ++ b) = scan returned a ++ scan (returnedBehind returned a) b := by
  induction a generalizing returned with
  | nil => rfl
  | cons c a ih =>
    rw [List.cons_append]
    by_cases nul : c = '\x00'
    · subst nul
      rw [scanNul, scanNul, returnedNul, ih]
    · rw [returnedOther returned a nul]
      by_cases returns : c = '\x0d'
      · subst returns
        rw [scanReturn, scanReturn, ih]
        rfl
      · rw [scan, scan, if_neg nul, if_neg nul, if_neg returns, if_neg returns,
          beq_false_of_ne returns, ih]
        split <;> rfl

theorem returnedLast {t : Text} :
    returnedBehind false t = true ↔ (dropNuls t).getLast? = some '\x0d' := by
  rw [returnedBehind]
  cases (dropNuls t).getLast? <;> simp

/- What ends with a return is normalized to what ends with a newline. -/
theorem normalizeEnds {t : Text} (ends : (dropNuls t).getLast? = some '\x0d') :
    ∃ front, normalize t = front ++ ['\n'] := by
  obtain ⟨front, parts⟩ := List.getLast?_eq_some_iff.1 ends
  refine ⟨scan false front, ?_⟩
  rw [normalizeScan, ← scanDropped, parts, scanAppend, scanReturn]
  rfl

theorem normalizeTorn {a b : Text} (torn : Torn a b) :
    ∃ front back, normalize a = front ++ ['\n'] ∧ normalize b = '\n' :: back ∧
      normalize (a ++ b) = front ++ '\n' :: back := by
  obtain ⟨ends, opens⟩ := torn
  obtain ⟨front, first⟩ := normalizeEnds ends
  refine ⟨front, scan true b, first, ?_, ?_⟩
  · rw [normalizeScan, scanCompleted opens]
  · rw [normalizeScan, scanAppend, returnedLast.2 ends, ← normalizeScan, first, List.append_assoc,
      List.singleton_append]

theorem normalizeWhole {a b : Text} (whole : ¬ Torn a b) :
    normalize (a ++ b) = normalize a ++ normalize b := by
  rw [normalizeScan, scanAppend, ← normalizeScan, normalizeScan b]
  cases returned : returnedBehind false a with
  | false => rfl
  | true => rw [scanLone fun newline => whole ⟨returnedLast.1 returned, newline⟩]

theorem normalizeKeeps {t : Text} : normalize t = t ↔ '\x00' ∉ t ∧ '\x0d' ∉ t := by
  refine ⟨fun same => ?_, fun clean => normalizeClean clean.1 clean.2⟩
  have holds : ∀ c ∈ t, c ≠ '\x00' ∧ c ≠ '\x0d' := fun c hc => normalizeHolds (same.symm ▸ hc)
  exact ⟨fun nul => (holds _ nul).1 rfl, fun returns => (holds _ returns).2 rfl⟩

/- Torn apart, an ending is counted once on either side of the seam. -/
theorem normalizeScans (t : Text) :
    normalize t = scan false t ∧
    ('\x00' ∉ normalize t ∧ '\x0d' ∉ normalize t) ∧
    normalize (normalize t) = normalize t ∧
    (normalize t = t ↔ '\x00' ∉ t ∧ '\x0d' ∉ t) ∧
    ∀ a b : Text,
      if Torn a b then
        ∃ front back, normalize a = front ++ ['\n'] ∧ normalize b = '\n' :: back ∧
          normalize (a ++ b) = front ++ '\n' :: back
      else normalize (a ++ b) = normalize a ++ normalize b := by
  refine ⟨normalizeScan t, ⟨fun nul => (normalizeHolds nul).1 rfl,
    fun returns => (normalizeHolds returns).2 rfl⟩, normalizeTwice t, normalizeKeeps, fun a b => ?_⟩
  split
  · rename_i torn
    exact normalizeTorn torn
  · rename_i whole
    exact normalizeWhole whole

end Intake.Normalization
