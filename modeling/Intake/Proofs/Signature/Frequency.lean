import Intake.Signature.Frequency

/-! Frequencies do not depend on order: words in another order are sorted alike, so they are
counted alike, and every float is summed from the same shares in the same order. -/
namespace Intake.Frequency

theorem inOrderAntisymm {a b : Text} (ab : inOrder a b = true) (ba : inOrder b a = true) : a = b :=
  Std.LawfulEqOrd.eq_of_compare (Std.OrientedCmp.isLE_antisymm ab ba)

variable {ws vs : List Text} (same : ws.Perm vs)
include same

theorem sortedPerm : ws.mergeSort inOrder = vs.mergeSort inOrder := by
  have sorted : (ws.mergeSort inOrder).Perm (vs.mergeSort inOrder) :=
    (List.mergeSort_perm ws inOrder).trans (same.trans (List.mergeSort_perm vs inOrder).symm)
  exact List.Perm.eq_of_pairwise (fun a b _ _ => inOrderAntisymm) (sortedInOrder ws)
    (sortedInOrder vs) sorted

theorem tallyPerm : tally ws = tally vs :=
  Table.sameEntries (congrArg runs (sortedPerm same))

theorem entropyPerm : entropy ws = entropy vs := by
  rw [entropy, entropy, same.isEmpty_eq, tallyPerm same, same.length_eq]

theorem vocabularyPerm : vocabulary ws = vocabulary vs := by
  rw [vocabulary, vocabulary, sortedPerm same]

theorem repeatedHeadsPerm : repeatedHeads ws = repeatedHeads vs := by
  rw [repeatedHeads, repeatedHeads, tallyPerm same]

theorem headsPerm (chars : Nat) : (heads chars ws).Perm (heads chars vs) :=
  (same.filter _).map _

theorem repeatabilityPerm (chars : Nat) : repeatability chars ws = repeatability chars vs := by
  have hs := headsPerm same chars
  simp only [repeatability]
  rw [hs.isEmpty_eq, repeatedHeadsPerm hs, hs.length_eq]

end Intake.Frequency
