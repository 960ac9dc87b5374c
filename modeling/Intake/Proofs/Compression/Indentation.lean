import Intake.Proofs.Compression.Firsts
import Intake.Proofs.Segment.Windows

/-! What log windows are merged on. A window opens with a line that is not blank, so a pattern is not
empty; but it is blank where a line is indented by as many characters as are compared, and windows
that are merged then have nothing in common but blanks. -/
namespace Intake

namespace Text

theorem leadBlank (l : Text) : Blank l.lead := List.all_eq_true.1 List.all_takeWhile

/- What is not blank has a first character that is not, behind the blanks that it opens with. -/
theorem leadEnds {l : Text} (visible : ¬ Blank l) :
    ∃ c rest, l = l.lead ++ c :: rest ∧ Unicode.isBlank c = false := by
  have parts : l = l.lead ++ l.dropWhile Unicode.isBlank := List.takeWhile_append_dropWhile.symm
  cases behind : l.dropWhile Unicode.isBlank with
  | nil =>
    rw [behind, List.append_nil] at parts
    exact absurd (parts ▸ leadBlank l) visible
  | cons c rest =>
    rw [behind] at parts
    have first := List.head?_dropWhile_not Unicode.isBlank l
    rw [behind, List.head?_cons] at first
    exact ⟨c, rest, parts, by simpa using first⟩

/- So many characters of it are blank only if they are among those that it opens with. -/
theorem prefixBlank {l : Text} (visible : ¬ Blank l) (k : Nat) :
    Blank (l.take k) ↔ k ≤ l.lead.length := by
  obtain ⟨c, rest, parts, shown⟩ := leadEnds visible
  constructor
  · intro blank
    refine Nat.le_of_not_lt fun beyond => ?_
    have here : (l.lead ++ c :: rest)[l.lead.length]? = some c := by simp
    rw [← parts, ← List.getElem?_take_of_lt beyond] at here
    cases shown.symm.trans (blank c (List.mem_of_getElem? here))
  · intro within d hd
    have front := @List.take_append_of_le_length _ l.lead (c :: rest) k within
    rw [← parts] at front
    rw [front] at hd
    exact leadBlank l d (List.mem_of_mem_take hd)

end Text

namespace Compression
open Text (Blank)

theorem mergedOnOpening {c : Config.Compressor} (positive : 1 ≤ c.patternPrefixChars) {window : Nat}
    {t : Text} {r : Nat} {l : List Nat}
    (merged : (compress c (Window.chunks window t) .logStream).provenance.get? r = some l) :
    ∃ p, p ≠ [] ∧ ∀ i ∈ l, ∃ d, (Window.chunks window t)[i]? = some d ∧
      patternOf c.patternPrefixChars.toNat d = p ∧ ¬ Blank d.firstLine ∧
      (Blank p ↔ c.patternPrefixChars.toNat ≤ d.firstLine.lead.length) := by
  have grouped := groupedPatterns ((Window.chunks window t).map (patternOf c.patternPrefixChars.toNat))
  obtain ⟨g, hg, -, -, rfl⟩ := (provenanceIff grouped).1 merged
  have each : ∀ i ∈ g.indices, ∃ d, (Window.chunks window t)[i]? = some d ∧
      patternOf c.patternPrefixChars.toNat d = g.pattern ∧ ¬ Blank d.firstLine := by
    intro i hi
    have here := grouped.at_ hg hi
    rw [List.getElem?_map] at here
    obtain ⟨d, found, pattern⟩ := Option.map_eq_some_iff.1 here
    exact ⟨d, found, pattern, Window.chunkOpened (List.mem_of_getElem? found)⟩
  refine ⟨g.pattern, fun none => ?_, fun i hi => ?_⟩
  · obtain ⟨d, -, pattern, visible⟩ := each g.root (rootMember g)
    rw [none, patternOf, List.take_eq_nil_iff] at pattern
    rcases pattern with zero | empty
    · have least : 1 ≤ c.patternPrefixChars.toNat := positive
      omega
    · exact visible (by rw [empty]; simp [Blank])
  · obtain ⟨d, found, pattern, visible⟩ := each i hi
    exact ⟨d, found, pattern, visible, pattern ▸ Text.prefixBlank visible _⟩

/- Two lines of one opening word. -/
theorem sameWordMerged :
    let cs := Window.chunks 1 "at 1\nat 2".toList
    let c : Config.Compressor := { patternPrefixChars := 2 }
    (compress c cs .logStream).provenance.get? 0 = some [0, 1] ∧
      ∃ p, p ≠ [] ∧ ∀ i ∈ [0, 1], ∃ d, cs[i]? = some d ∧
        patternOf 2 d = p ∧ ¬ Blank d.firstLine ∧ (Blank p ↔ 2 ≤ d.firstLine.lead.length) := by
  intro cs c
  have merged : (compress c cs .logStream).provenance.get? 0 = some [0, 1] := by decide +kernel
  have positive : 1 ≤ c.patternPrefixChars := by decide
  exact ⟨merged, mergedOnOpening positive merged⟩

/- Two lines that have nothing in common but how they are indented. -/
theorem indentedMerged :
    let cs := Window.chunks 1 " a\n b".toList
    let c : Config.Compressor := { patternPrefixChars := 1 }
    (compress c cs .logStream).provenance.get? 0 = some [0, 1] ∧
      cs.map (patternOf 1) = [" ".toList, " ".toList] ∧ Blank " ".toList := by
  intro cs c
  exact ⟨by decide +kernel, by decide +kernel, by decide⟩

end Compression

end Intake
