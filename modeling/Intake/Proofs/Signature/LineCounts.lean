import Intake.Proofs.Pattern.Meaning
import Intake.Proofs.Signature.LineOrder

/-! Markers counted line by line. What is counted in a whole text is the sum of what is counted in
each of its lines alone; of a line that opens with a list marker just one is counted, so neither
list items nor table rows outnumber the lines. -/
namespace Intake
open Text (Blank OneLine joinLines)

namespace Pattern

/- A pattern that leads on from the start of a line only. -/
def Anchored (p : Pattern) : Prop := ∀ pl pl', Matches p pl pl' → pl.meets .lineStart = true

/- A line opens with what a pattern describes. -/
def Opens (p : Pattern) (l : Text) : Prop := ∃ pl, Matches p ⟨0, none, l⟩ pl

instance (p : Pattern) : DecidablePred (Opens p) := fun l =>
  decidable_of_iff _ (exploreMatches p l 0 none)

section Anchored
variable {p : Pattern} (anchored : Anchored p)
include anchored

theorem exploreInside {c : Char} (inside : Text.isNewline c = false) (rest : Text) (offset : Nat)
    (met : Met) : (explore p.matcher.code rest offset (some c) 0 met).1 = none := by
  cases found : explore p.matcher.code rest offset (some c) 0 met with
  | mk way met' =>
    cases way with
    | none => rfl
    | some way =>
      obtain ⟨pl, leads, -⟩ := endsMatches.1 (exploreEnds found)
      have starts : Text.isNewline c = true := anchored _ _ leads
      rw [inside] at starts
      cases starts

theorem findFromInside {c : Char} (inside : Text.isNewline c = false) {rest : Text}
    (oneLine : OneLine rest) (last : Option Nat) (met : Met) (offset : Nat) :
    p.matcher.findFrom last met offset (some c) rest = [] := by
  have nowhere : ∀ last met offset c rest, Text.isNewline c = false →
      (p.matcher.attempt last met offset (some c) rest).1 = none := by
    intro last met offset c rest inside
    have none := exploreInside anchored inside rest offset met
    unfold Matcher.attempt
    split
    · rfl
    · cases found : explore p.matcher.code rest offset (some c) 0 met with
      | mk way met' =>
        rw [found] at none
        cases none
        rfl
  induction rest generalizing c last met offset with
  | nil => rw [Matcher.findFromNil, nowhere _ _ _ _ _ inside]; rfl
  | cons d rest ih =>
    have next : Text.isNewline d = false := oneLine d List.mem_cons_self
    have later : OneLine rest := fun e he => oneLine e (List.mem_cons_of_mem _ he)
    rw [Matcher.findFromCons, nowhere _ _ _ _ _ inside, ih next later]
    rfl

/- In a line alone such a pattern is found once, if the line opens with it. -/
theorem foundOnce {l : Text} (oneLine : OneLine l) :
    (p.matcher.findAll l).length = if Opens p l then 1 else 0 := by
  have first : (p.matcher.attempt none ∅ 0 none l).1.isSome = decide (Opens p l) := by
    rw [Bool.eq_iff_iff, decide_eq_true_eq, Opens, ← exploreMatches]
    unfold Matcher.attempt
    cases explore p.matcher.code l 0 none 0 ∅ with
    | mk way met' => cases way <;> simp
  have once : (p.matcher.findAll l).length =
      (p.matcher.attempt none ∅ 0 none l).1.isSome.toNat := by
    unfold Matcher.findAll
    cases l with
    | nil =>
      rw [Matcher.findFromNil]
      cases (p.matcher.attempt none ∅ 0 none []).1 <;> rfl
    | cons c rest =>
      have inside : Text.isNewline c = false := oneLine c List.mem_cons_self
      have later : OneLine rest := fun e he => oneLine e (List.mem_cons_of_mem _ he)
      rw [Matcher.findFromCons, findFromInside anchored inside later, List.append_nil]
      cases (p.matcher.attempt none ∅ 0 none (c :: rest)).1 <;> rfl
  rw [once, first]
  by_cases opens : Opens p l <;> simp [opens]

end Anchored

end Pattern

namespace Marker
open Pattern (Anchored Opens CharSet anyOf)

theorem listItemAnchored : Anchored listItem := by
  rintro pl pl' ⟨mid, ⟨starts, -⟩, -⟩
  exact starts

theorem anyOfMatches {cs : List Char} {c : Char} (member : c ∈ cs) (offset : Nat)
    (before : Option Char) (rest : Text) :
    Pattern.Matches (anyOf cs) ⟨offset, before, c :: rest⟩ ⟨offset + c.utf8Size, some c, rest⟩ := by
  have holds : (CharSet.ofList cs).holds c = true := by
    rwa [CharSet.holdsOfList, decide_eq_true_eq]
  simp only [anyOf, Pattern.Matches, Pattern.Place.step?, holds, if_true, Pattern.Place.next]

theorem bulletOpens {b g : Char} (isBullet : b ∈ ['-', '*', '+', '\u2022'])
    (isGap : g ∈ [' ', '\t']) (rest : Text) : Opens listItem (b :: g :: rest) :=
  ⟨_, _, ⟨rfl, rfl⟩, _, ⟨0, Nat.le_refl _, by simp, .done⟩,
    .inr (.inr ⟨_, anyOfMatches isBullet 0 none (g :: rest), anyOfMatches isGap _ (some b) rest⟩)⟩

/- What is found in a text is what each of its lines holds, and lies within a line. -/
theorem foundWithinLines {p : Pattern} (ofLines : OfLines p) (t : Text) :
    p.matcher.findAll t = p.matcher.findLines 0 t.lines ∧
      ∀ f ∈ p.matcher.findAll t, OneLine f.text := by
  constructor
  · have joined := Pattern.findAllLines ofLines.within (Text.linesNonempty t)
    rwa [Text.joinLinesLines] at joined
  · intro f hf c hc
    have sits := Pattern.Matcher.findAllSits p.matcher t f hf
    obtain ⟨set, newline, holds⟩ := Pattern.takesMade ofLines.within (sits.taken c hc)
    refine beq_eq_false_iff_ne.2 fun same => ?_
    rw [same, newline] at holds
    cases holds

theorem tableRowVisible {l : Text} (blank : Blank l) : isTableRow l = false := by
  have bar : l.contains '|' = false := by
    refine Bool.eq_false_iff.2 fun present => ?_
    have visible := blank '|' (List.contains_iff_mem.1 present)
    exact absurd visible (by decide)
  have demands : Pattern.Demands Visible tableGap := .inl fun _ => Pattern.CharSet.wordBlank
  have none : tableGap.matcher.findAll l = [] :=
    Pattern.findAllMisses demands fun c hc _ visible => visible c (blank c hc)
  rw [isTableRow, bar, Pattern.Matcher.occursIn, none]
  rfl

end Marker

namespace MarkerCounts
open Pattern (Opens)

instance : Zero MarkerCounts := ⟨⟨0, 0, 0, 0⟩⟩

instance : Add MarkerCounts := ⟨fun a b =>
  ⟨a.time + b.time, a.list + b.list, a.table + b.table, a.identifiers + b.identifiers⟩⟩

/- The counts of single lines add up. -/
theorem ofLinesSum (ls : List Text) : ofLines ls = (ls.map fun l => scan l [l]).sum := by
  induction ls with
  | nil => rfl
  | cons l ls ih =>
    have split : ofLines (l :: ls) = scan l [l] + ofLines ls := by
      rw [ofLines, List.flatMap_cons, List.flatMap_cons, List.flatMap_cons, List.length_append,
        List.length_append, List.length_append, List.countP_cons, Nat.add_comm (ls.countP _),
        ← List.countP_singleton]
      rfl
    rw [split, ih, List.map_cons, List.sum_cons]

theorem scanBlank {l : Text} (blank : Blank l) : scan l [l] = 0 := by
  rw [scan, Marker.missedInBlank Marker.timeOfLines l blank,
    Marker.missedInBlank Marker.listItemOfLines l blank,
    Marker.missedInBlank Marker.identifierOfLines l blank, List.countP_singleton,
    Marker.tableRowVisible blank]
  rfl

theorem listOfLines {ls : List Text} (clean : ∀ l ∈ ls, OneLine l) :
    (ofLines ls).list = ls.countP (fun l => decide (Opens Marker.listItem l)) := by
  induction ls with
  | nil => rfl
  | cons l ls ih =>
    have later := ih fun k hk => clean k (List.mem_cons_of_mem _ hk)
    have first := Pattern.foundOnce Marker.listItemAnchored (clean l List.mem_cons_self)
    simp only [ofLines] at later ⊢
    rw [List.flatMap_cons, List.length_append, later, first, List.countP_cons, Nat.add_comm]
    by_cases opens : Opens Marker.listItem l <;> simp [opens]

end MarkerCounts

namespace Detector
open Pattern (Opens)

theorem contentClean {t l : Text} (member : l ∈ contentLines t) : OneLine l :=
  Text.linesClean (List.mem_filter.1 member).1

theorem shapeMarkers (c : Config.Detector) (t : Text) :
    (signature c t).shape.lineCount = (contentLines t).length ∧
      (signature c t).shape.listMarkers = (MarkerCounts.ofLines (contentLines t)).list ∧
      (signature c t).shape.tableMarkers = (MarkerCounts.ofLines (contentLines t)).table := by
  rw [signatureLines, ofLines]
  split
  · rename_i none
    rw [List.isEmpty_iff.1 none]
    exact ⟨rfl, rfl, rfl⟩
  · exact ⟨rfl, rfl, rfl⟩

/- Markers of a text are those of its lines: counts add up, what is found lies within a line and is
found there alone as well, a line opens with one list marker or none, and blank lines have none. -/
theorem markersByLines (c : Config.Detector) (t : Text) :
    let ls := contentLines t
    let counts := MarkerCounts.scan t ls
    counts = (ls.map fun l => MarkerCounts.scan l [l]).sum ∧
    (∀ p ∈ [Marker.time, Marker.listItem, Marker.identifier],
      p.matcher.findAll t = p.matcher.findLines 0 t.lines ∧
      ∀ f ∈ p.matcher.findAll t, OneLine f.text) ∧
    (∀ l, OneLine l →
      (MarkerCounts.scan l [l]).list = if Opens Marker.listItem l then 1 else 0) ∧
    counts.list = ls.countP (fun l => decide (Opens Marker.listItem l)) ∧
    (∀ l, Blank l → MarkerCounts.scan l [l] = 0) ∧
    (detect c t).1.shape.listMarkers ≤ (detect c t).1.shape.lineCount ∧
    (detect c t).1.shape.tableMarkers ≤ (detect c t).1.shape.lineCount := by
  intro ls counts
  have lines : counts = MarkerCounts.ofLines ls := MarkerCounts.scanLines t
  have opening : (MarkerCounts.ofLines ls).list =
      ls.countP (fun l => decide (Opens Marker.listItem l)) :=
    MarkerCounts.listOfLines fun l => contentClean
  obtain ⟨lineCount, listMarkers, tableMarkers⟩ := shapeMarkers c t
  refine ⟨lines.trans (MarkerCounts.ofLinesSum ls), ?_, fun l oneLine => ?_, lines ▸ opening,
    fun l => MarkerCounts.scanBlank, ?_, ?_⟩
  · simp only [List.forall_mem_cons, List.not_mem_nil, false_implies, implies_true, and_true]
    exact ⟨Marker.foundWithinLines Marker.timeOfLines t,
      Marker.foundWithinLines Marker.listItemOfLines t,
      Marker.foundWithinLines Marker.identifierOfLines t⟩
  · exact Pattern.foundOnce Marker.listItemAnchored oneLine
  · rw [detect, listMarkers, lineCount, opening]
    exact List.countP_le_length
  · rw [detect, tableMarkers, lineCount]
    exact List.countP_le_length

/- A line that opens with a bullet, and a blank one. -/
theorem bulletOpensLine :
    let t : Text := "- at 10:20:30\n \t\na | b".toList
    let l : Text := "- at 10:20:30".toList
    OneLine l ∧ (MarkerCounts.scan l [l]).list = 1 ∧
    Blank " \t".toList ∧ MarkerCounts.scan " \t".toList [" \t".toList] = 0 ∧
    Marker.time.matcher.findAll t = Marker.time.matcher.findLines 0 t.lines := by
  intro t l
  obtain ⟨-, found, single, -, nothing, -⟩ := markersByLines {} t
  have oneLine : OneLine l := by decide
  have blank : Blank " \t".toList := by decide
  have opens : Opens Marker.listItem l :=
    Marker.bulletOpens (by decide) (by decide) "at 10:20:30".toList
  exact ⟨oneLine, (single l oneLine).trans (if_pos opens), blank, nothing _ blank,
    (found _ List.mem_cons_self).1⟩

end Detector

end Intake
