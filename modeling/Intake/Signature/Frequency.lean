import Intake.Ratio
import Intake.Table
import Intake.Text.Lines

/-! Frequencies of words and of line heads. Counts stand in ascending order of what is
counted, so sums of floats over them do not depend on the order of occurrence. -/
namespace Intake.Frequency

def inOrder (a b : Text) : Bool := (compare a b).isLE

theorem inOrderTrans (a b c : Text) (ab : inOrder a b = true) (bc : inOrder b c = true) :
    inOrder a c = true := Std.TransCmp.isLE_trans ab bc

theorem inOrderTotal (a b : Text) : (inOrder a b || inOrder b a) = true := by
  unfold inOrder
  have swap : compare a b = (compare b a).swap := Std.OrientedCmp.eq_swap
  rw [swap]
  cases compare b a <;> rfl

theorem sortedInOrder (ws : List Text) :
    (ws.mergeSort inOrder).Pairwise (fun a b => inOrder a b = true) :=
  List.pairwise_mergeSort inOrderTrans inOrderTotal ws

/- Neighbours that are equal, counted. -/
def runs : List Text → List (Text × Nat)
  | [] => []
  | w :: rest =>
    match runs rest with
    | [] => [(w, 1)]
    | (v, n) :: others => if v = w then (v, n + 1) :: others else (w, 1) :: (v, n) :: others

/- Written out again, the runs are the list. -/
theorem runsSpread (ws : List Text) :
    (runs ws).flatMap (fun r => List.replicate r.2 r.1) = ws := by
  induction ws with
  | nil => rfl
  | cons w rest ih =>
    unfold runs
    cases h : runs rest with
    | nil => rw [h] at ih; simpa using ih
    | cons r others =>
      rw [h] at ih
      by_cases same : r.1 = w
      · subst same; simpa [List.replicate_succ] using ih
      · simpa [same] using ih

theorem runsPositive {ws : List Text} {r : Text × Nat} (h : r ∈ runs ws) : 0 < r.2 := by
  induction ws generalizing r with
  | nil => simp [runs] at h
  | cons w rest ih =>
    unfold runs at h
    cases e : runs rest with
    | nil => rw [e] at h; simp at h; simp [h]
    | cons first others =>
      rw [e] at h ih
      by_cases same : first.1 = w
      · simp only [same, if_true, List.mem_cons] at h
        rcases h with rfl | h
        · simp
        · exact ih (List.mem_cons_of_mem _ h)
      · simp only [same, if_false, List.mem_cons] at h
        rcases h with rfl | h
        · simp
        · exact ih (List.mem_cons.2 h)

theorem runsMember {ws : List Text} {r : Text × Nat} (h : r ∈ runs ws) : r.1 ∈ ws := by
  rw [← runsSpread ws]
  exact List.mem_flatMap.2 ⟨r, h, by simp [Nat.pos_iff_ne_zero.1 (runsPositive h)]⟩

theorem runsAscending {ws : List Text} (h : ws.Pairwise (fun a b => inOrder a b = true)) :
    (runs ws).Pairwise (fun a b => compare a.1 b.1 = .lt) := by
  induction ws with
  | nil => exact .nil
  | cons w rest ih =>
    have tail := List.pairwise_cons.1 h
    have ordered := ih tail.2
    unfold runs
    cases e : runs rest with
    | nil => simp
    | cons r others =>
      rw [e] at ordered
      by_cases same : r.1 = w
      · simpa [same] using ordered
      · have behind : ∀ s ∈ runs rest, compare w s.1 ≠ .eq → compare w s.1 = .lt := by
          intro s hs other
          have le := tail.1 s.1 (runsMember hs)
          unfold inOrder at le
          cases c : compare w s.1 <;> simp_all
        have first : compare w r.1 = .lt := behind r (by simp [e])
          (fun c => same (Std.LawfulEqOrd.eq_of_compare c).symm)
        simp only [same, if_false]
        refine List.pairwise_cons.2 ⟨?_, ordered⟩
        intro s hs
        rcases List.mem_cons.1 hs with rfl | hs
        · exact first
        · exact Std.TransCmp.lt_trans first ((List.pairwise_cons.1 ordered).1 s hs)

def tally (ws : List Text) : Table Text Nat :=
  ⟨runs (ws.mergeSort inOrder), runsAscending (sortedInOrder ws)⟩

theorem countSpread {rs : List (Text × Nat)} (h : rs.Pairwise (fun a b => compare a.1 b.1 = .lt))
    {r : Text × Nat} (member : r ∈ rs) :
    (rs.flatMap (fun r => List.replicate r.2 r.1)).count r.1 = r.2 := by
  have apart : ∀ (p : Text × Nat) (ps : List (Text × Nat)),
      (∀ q ∈ ps, compare p.1 q.1 = .lt) →
      (ps.flatMap (fun r => List.replicate r.2 r.1)).count p.1 = 0 := by
    intro p ps later
    refine List.count_eq_zero.2 fun inside => ?_
    obtain ⟨q, hq, written⟩ := List.mem_flatMap.1 inside
    have same := (List.mem_replicate.1 written).2
    have := later q hq
    simp [same] at this
  induction rs with
  | nil => simp at member
  | cons p ps ih =>
    have tail := List.pairwise_cons.1 h
    rcases List.mem_cons.1 member with rfl | member
    · simp [apart r ps tail.1]
    · have other : p.1 ≠ r.1 := fun same => by simpa [same] using tail.1 r member
      simp [ih tail.2 member, List.count_replicate, other]

theorem runsCount {ws : List Text} {r : Text × Nat} (h : r ∈ runs (ws.mergeSort inOrder)) :
    r.2 = ws.count r.1 := by
  have counted := countSpread (runsAscending (sortedInOrder ws)) h
  rw [runsSpread, (List.mergeSort_perm ws inOrder).count_eq] at counted
  exact counted.symm

/- Every word is counted, and nothing else. -/
theorem getTally (ws : List Text) (w : Text) :
    (tally ws).get? w = if w ∈ ws then some (ws.count w) else none := by
  split
  · rename_i present
    refine Table.getSome.2 (show (w, ws.count w) ∈ runs (ws.mergeSort inOrder) from ?_)
    have sorted : w ∈ ws.mergeSort inOrder := List.mem_mergeSort.2 present
    rw [← runsSpread (ws.mergeSort inOrder)] at sorted
    obtain ⟨r, hr, written⟩ := List.mem_flatMap.1 sorted
    have same := (List.mem_replicate.1 written).2
    rw [same, ← runsCount hr]
    exact hr
  · rename_i absent
    cases found : (tally ws).get? w with
    | none => rfl
    | some n => exact absurd (List.mem_mergeSort.1 (runsMember (Table.getSome.1 found))) absent

/- One word's share of the bits: a share p of all words counts -p times its logarithm. -/
def share (total count : Nat) : Float :=
  let p := Ratio.of count total
  (-p) * p.log2

/- The sum starts from minus zero, the one float that changes no other when added. -/
def entropy (ws : List Text) : Float :=
  if ws.isEmpty then 0.0
  else (tally ws).values.foldl (fun sum count => sum + share ws.length count) (-0.0)

def vocabulary (ws : List Text) : Nat := (ws.mergeSort inOrder).eraseReps.length

/- Only lines longer than the head take part. -/
def heads (chars : Nat) (lines : List Text) : List Text :=
  (lines.filter (fun l => decide (chars < l.length))).map (List.take chars)

def repeatedHeads (hs : List Text) : Nat :=
  ((tally hs).values.filter (fun n => decide (1 < n))).foldr (· + ·) 0

theorem spreadRepeated (p : Text → Bool) {rs : List (Text × Nat)}
    (h : ∀ r ∈ rs, p r.1 = decide (1 < r.2)) :
    (rs.flatMap (fun r => List.replicate r.2 r.1)).countP p =
      ((rs.map (·.2)).filter (fun n => decide (1 < n))).foldr (· + ·) 0 := by
  induction rs with
  | nil => rfl
  | cons r rs ih =>
    have rest := ih (fun s hs => h s (List.mem_cons_of_mem _ hs))
    by_cases more : 1 < r.2 <;>
      simp [List.countP_replicate, h r List.mem_cons_self, more, rest]

/- The heads that occur more than once, each as often as it occurs. -/
theorem repeatedHeadsCount (hs : List Text) :
    repeatedHeads hs = hs.countP (fun h => decide (1 < hs.count h)) := by
  have counted : ∀ r ∈ runs (hs.mergeSort inOrder),
      decide (1 < hs.count r.1) = decide (1 < r.2) :=
    fun r hr => by rw [runsCount hr]
  have spread := spreadRepeated (fun h => decide (1 < hs.count h)) counted
  rw [runsSpread, (List.mergeSort_perm hs inOrder).countP_eq] at spread
  exact spread.symm

def repeatability (chars : Nat) (lines : List Text) : Float :=
  let hs := heads chars lines
  if hs.isEmpty then 0.0 else Ratio.of (repeatedHeads hs) hs.length

end Intake.Frequency
