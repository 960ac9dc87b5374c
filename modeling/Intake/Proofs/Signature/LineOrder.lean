import Intake.Proofs.Signature.Frequency
import Intake.Proofs.Signature.Markers
import Intake.Selection
import Intake.Signature.Detector

/-! Classification by lines. All that a signature says, but for the ratios of characters, it says
about the lines that are not blank, and about these in any order; the policy goes by nothing else. -/
namespace Intake.Detector
open Text (Blank joinLines)

theorem wordsVisible (t : Text) : t.words = (contentLines t).flatMap Text.words := by
  have all := Text.wordsJoinLines t.lines
  rwa [Text.joinLinesLines, Text.flatMapVisible fun _ => Text.wordsBlank] at all

theorem kindRatioPerm (k : CharKind) {t u : Text} (same : u.Perm t) :
    kindRatio k u = kindRatio k t := by
  have empty : u.isEmpty = t.isEmpty := by
    rw [Bool.eq_iff_iff, List.isEmpty_iff_length_eq_zero, List.isEmpty_iff_length_eq_zero,
      same.length_eq]
  rw [kindRatio, kindRatio, empty, same.countP_eq, same.length_eq]

/- What blank lines have a share in. -/
structure Ratios where
  digit : Float
  special : Float
  upper : Float

def ratios (t : Text) : Ratios := ⟨kindRatio .digit t, kindRatio .special t, kindRatio .upper t⟩

/- The signature of lines none of which is blank, given the ratios. -/
def ofLines (c : Config.Detector) (ls : List Text) (r : Ratios) : Signature :=
  if ls.isEmpty then .empty
  else
    let m := MarkerCounts.ofLines ls
    let words := ls.flatMap Text.words
    let mode := classify c ls.length m
    let distribution : Distribution :=
      { tokenEntropy := Frequency.entropy words
        repeatability := Frequency.repeatability c.repeatPrefixChars.toNat ls
        vocabulary := Frequency.vocabulary words }
    { shape :=
        { mode := mode
          lineCount := ls.length
          averageLineLength := Ratio.of ls.flatten.length ls.length
          digitRatio := r.digit
          specialRatio := r.special
          upperRatio := r.upper
          timeMarkers := m.time
          listMarkers := m.list
          tableMarkers := m.table
          identifiers := m.identifiers }
      distribution := distribution
      stability := stability c mode distribution }

theorem signatureLines (c : Config.Detector) (t : Text) :
    signature c t = ofLines c (contentLines t) (ratios t) := by
  have markers : MarkerCounts.scan t (contentLines t) = MarkerCounts.ofLines (contentLines t) :=
    MarkerCounts.scanLines t
  simp only [signature, shape, distribution, markers, wordsVisible]
  rfl

theorem ofLinesPerm (c : Config.Detector) (r : Ratios) {ls ks : List Text} (same : ls.Perm ks) :
    ofLines c ls r = ofLines c ks r := by
  have empty : ls.isEmpty = ks.isEmpty := by
    rw [Bool.eq_iff_iff, List.isEmpty_iff_length_eq_zero, List.isEmpty_iff_length_eq_zero,
      same.length_eq]
  have words : (ls.flatMap Text.words).Perm (ks.flatMap Text.words) := same.flatMap_right _
  simp only [ofLines, empty, same.length_eq, MarkerCounts.ofLinesPerm same, same.flatten.length_eq,
    Frequency.entropyPerm words, Frequency.vocabularyPerm words, Frequency.repeatabilityPerm same]

def withoutRatios (s : Signature) : Signature :=
  { s with shape := { s.shape with digitRatio := 0.0, specialRatio := 0.0, upperRatio := 0.0 } }

theorem ofLinesRatios (c : Config.Detector) (ls : List Text) (r r' : Ratios) :
    withoutRatios (ofLines c ls r) = withoutRatios (ofLines c ls r') := by
  unfold ofLines
  split <;> rfl

theorem signatureVisible (c : Config.Detector) {t u : Text}
    (same : (contentLines u).Perm (contentLines t)) :
    withoutRatios (signature c u) = withoutRatios (signature c t) := by
  rw [signatureLines, signatureLines, ofLinesPerm c (ratios u) same]
  exact ofLinesRatios c (contentLines t) (ratios u) (ratios t)

theorem signaturePerm (c : Config.Detector) {t : Text} {ls : List Text} (same : ls.Perm t.lines) :
    signature c (joinLines ls) = signature c t := by
  have some : ls ≠ [] := fun none => Text.linesNonempty t (none ▸ same).symm.eq_nil
  have clean : ∀ l ∈ ls, Text.OneLine l := fun l hl => Text.linesClean (same.mem_iff.1 hl)
  have content : (contentLines (joinLines ls)).Perm (contentLines t) := by
    rw [contentLines, Text.linesJoinLines some clean]
    exact same.filter _
  have characters : (joinLines ls).Perm t := by
    have joined := Text.joinLinesPerm same
    rwa [Text.joinLinesLines] at joined
  have shares : ratios (joinLines ls) = ratios t := by
    rw [ratios, ratios, kindRatioPerm _ characters, kindRatioPerm _ characters,
      kindRatioPerm _ characters]
  rw [signatureLines, signatureLines, shares]
  exact ofLinesPerm c (ratios t) content

/- The rules ask for the mode, the conflict and the repeatability only. -/
theorem ruleWithoutRatios (k : Config.Selector) (s : Signature) :
    Selection.rule k (withoutRatios s) = Selection.rule k s := rfl

theorem selectWithoutRatios (k : Config.Selector) (s : Signature) :
    Selection.select k (withoutRatios s) = Selection.select k s := rfl

/- Lines in any order give the same signature, float for float; texts with the same lines but for
blank ones give the same signature up to the ratios; and the decision is the same in both cases. -/
theorem classificationByLines (c : Config.Detector) (k : Config.Selector) (t : Text) :
    (∀ ls : List Text, ls.Perm t.lines →
      (detect c (joinLines ls)).1 = (detect c t).1 ∧
      Selection.rule k (detect c (joinLines ls)).1 = Selection.rule k (detect c t).1 ∧
      Selection.select k (detect c (joinLines ls)).1 = Selection.select k (detect c t).1) ∧
    (∀ u : Text, u.lines.filter (fun l => decide (¬ Blank l)) =
        t.lines.filter (fun l => decide (¬ Blank l)) →
      withoutRatios (detect c u).1 = withoutRatios (detect c t).1 ∧
      Selection.rule k (detect c u).1 = Selection.rule k (detect c t).1 ∧
      Selection.select k (detect c u).1 = Selection.select k (detect c t).1) := by
  constructor
  · intro ls same
    have signatures : (detect c (joinLines ls)).1 = (detect c t).1 := signaturePerm c same
    rw [signatures]
    exact ⟨rfl, rfl, rfl⟩
  · intro u same
    have signatures : withoutRatios (detect c u).1 = withoutRatios (detect c t).1 :=
      signatureVisible c (List.Perm.of_eq same)
    refine ⟨signatures, ?_, ?_⟩
    · rw [← ruleWithoutRatios, signatures, ruleWithoutRatios]
    · rw [← selectWithoutRatios, signatures, selectWithoutRatios]

/- Three lines the other way round, and the same lines with other blank ones between them. -/
theorem threeLinesClassified :
    let t : Text := "at 10:20:30\n\nStep 2: AB_1".toList
    let ls : List Text := ["Step 2: AB_1".toList, [], "at 10:20:30".toList]
    let u : Text := " \nat 10:20:30\nStep 2: AB_1\n\t\n".toList
    ls.Perm t.lines ∧
    u.lines.filter (fun l => decide (¬ Blank l)) = t.lines.filter (fun l => decide (¬ Blank l)) ∧
    (detect {} (joinLines ls)).1 = (detect {} t).1 ∧
    withoutRatios (detect {} u).1 = withoutRatios (detect {} t).1 ∧
    Selection.select {} (detect {} u).1 = Selection.select {} (detect {} t).1 := by
  intro t ls u
  have turned : ls.Perm t.lines := by decide
  have visible : u.lines.filter (fun l => decide (¬ Blank l)) =
      t.lines.filter (fun l => decide (¬ Blank l)) := by decide
  obtain ⟨moved, spaced⟩ := classificationByLines {} {} t
  exact ⟨turned, visible, (moved ls turned).1, (spaced u visible).1, (spaced u visible).2.2⟩

end Intake.Detector
