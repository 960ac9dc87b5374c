import Intake.Proofs.Pattern.Patience

/-! What exploring does at one instruction, and searching at one place. The steps that exploring counts
are never used up, so at every address it goes on as the instruction there says; and a search goes on
with the next place, or behind what it found. -/
namespace Intake.Pattern
variable {p : Pattern} {rest : Text} {offset a : Nat} {before : Option Char} {met : Met}

/- One instruction after another, with no count of steps left. -/
theorem exploreUnfolds : explore p.matcher.code rest offset before a met =
    match p.matcher.code[a]? with
    | none => (some ⟨offset, []⟩, met)
    | some (.take set) => onwardFrom p.matcher.code offset rest set (a + 1) met
    | some (.test e) =>
      if Place.meets ⟨offset, before, rest⟩ e then
        explore p.matcher.code rest offset before (a + 1) met
      else (none, met)
    | some (.mark index closes) =>
      let (way, met) := explore p.matcher.code rest offset before (a + 1) met
      (way.map (.push ⟨index, closes, offset⟩), met)
    | some (.jump target) => explore p.matcher.code rest offset before target met
    | some (.fork q r) =>
      if met.contains (visit p.matcher.code a offset) then (none, met)
      else match explore p.matcher.code rest offset before q
          (met.insert (visit p.matcher.code a offset)) with
        | (some way, met) => (some way, met)
        | (none, met) => explore p.matcher.code rest offset before r met := by
  rw [← exploreAmple p rest offset a 1 before met]
  simp only [explorePatience]
  rfl

theorem exploreDone (here : p.matcher.code[a]? = none) :
    explore p.matcher.code rest offset before a met = (some ⟨offset, []⟩, met) := by
  rw [exploreUnfolds, here]

theorem exploreTaken {set : CharSet} (here : p.matcher.code[a]? = some (.take set)) {c : Char}
    (holds : set.holds c = true) : explore p.matcher.code (c :: rest) offset before a met =
      explore p.matcher.code rest (offset + c.utf8Size) (some c) (a + 1) met := by
  rw [exploreUnfolds, here]
  exact if_pos holds

theorem exploreMissed {set : CharSet} (here : p.matcher.code[a]? = some (.take set))
    (misses : ∀ c ∈ rest.head?, set.holds c = false) :
    explore p.matcher.code rest offset before a met = (none, met) := by
  rw [exploreUnfolds, here]
  cases rest with
  | nil => rfl
  | cons c rest => exact if_neg (Bool.eq_false_iff.1 (misses c rfl))

theorem exploreJump {target : Nat} (here : p.matcher.code[a]? = some (.jump target)) :
    explore p.matcher.code rest offset before a met =
      explore p.matcher.code rest offset before target met := by
  rw [exploreUnfolds, here]

section Fork
variable {q r : Nat} (here : p.matcher.code[a]? = some (.fork q r))
  (unmet : met.contains (visit p.matcher.code a offset) = false) {way : Way} {met' : Met}
include here unmet

theorem exploreForkFirst (found : explore p.matcher.code rest offset before q
    (met.insert (visit p.matcher.code a offset)) = (some way, met')) :
    explore p.matcher.code rest offset before a met = (some way, met') := by
  rw [exploreUnfolds, here]
  simp only [unmet, Bool.false_eq_true, if_false, found]

/- The other way of a fork is gone only where the preferred one fails. -/
theorem exploreForkOther (failed : explore p.matcher.code rest offset before q
    (met.insert (visit p.matcher.code a offset)) = (none, met')) :
    explore p.matcher.code rest offset before a met =
      explore p.matcher.code rest offset before r met' := by
  rw [exploreUnfolds, here]
  simp only [unmet, Bool.false_eq_true, if_false, failed]

end Fork

/- A match covers what its way read of the text ahead. -/
theorem Found.spanRead {t read after : Text} (whole : t = read ++ after) (offset : Nat) :
    (Found.ofWay offset t ⟨offset + Text.size read, []⟩).span = ⟨offset, offset + Text.size read⟩ := by
  simp [Found.span, Found.stop, Found.ofWay, whole]

namespace Matcher
variable {m : Matcher} {last : Option Nat}

theorem notFurther {offset' : Nat} (reached : last.any (offset < ·) = false)
    (further : offset ≤ offset') : last.any (offset' < ·) = false := by
  cases last with
  | none => rfl
  | some n => simp only [Option.any_some, decide_eq_false_iff_not] at reached ⊢; omega

theorem findFromPast {c : Char} (taken : last.any (offset < ·) = true) :
    m.findFrom last met offset before (c :: rest) =
      m.findFrom last met (offset + c.utf8Size) (some c) rest :=
  if_pos taken

/- What the last match took is passed over. -/
theorem findFromTaken (m : Matcher) (w rest : Text) (offset : Nat) (before : Option Char) (met : Met) :
    ∃ before', m.findFrom (some (offset + Text.size w)) met offset before (w ++ rest) =
      m.findFrom (some (offset + Text.size w)) met (offset + Text.size w) before' rest := by
  induction w generalizing offset before with
  | nil => exact ⟨before, rfl⟩
  | cons c w ih =>
    have positive := Text.charPositive c
    have ahead : (some (offset + Text.size (c :: w))).any (offset < ·) = true := by
      simp only [Text.sizeCons, Option.any_some, decide_eq_true_eq]; omega
    obtain ⟨before', later⟩ := ih (offset + c.utf8Size) (some c)
    rw [Nat.add_assoc, ← Text.sizeCons] at later
    exact ⟨before', by rw [List.cons_append, findFromPast ahead, later]⟩

theorem findFromEnd {met' : Met} (failed : explore m.code [] offset before 0 met = (none, met')) :
    m.findFrom last met offset before [] = [] := by
  rw [findFrom, failed]
  split <;> rfl

section Reached
variable (reached : last.any (offset < ·) = false) {c : Char} {met' : Met}
include reached

theorem findFromFails (failed : explore m.code (c :: rest) offset before 0 met = (none, met')) :
    m.findFrom last met offset before (c :: rest) =
      m.findFrom last met' (offset + c.utf8Size) (some c) rest := by
  simp only [findFrom, reached, failed, Bool.false_eq_true, if_false]

theorem findFromFinds {way : Way} (further : offset < way.stop)
    (found : explore m.code (c :: rest) offset before 0 met = (some way, met')) :
    m.findFrom last met offset before (c :: rest) = .ofWay offset (c :: rest) way ::
      m.findFrom (some way.stop) ∅ (offset + c.utf8Size) (some c) rest := by
  have moved : (way.stop == offset) = false := by
    rw [beq_eq_false_iff_ne]; omega
  simp only [findFrom, reached, found, moved, Bool.and_false, Bool.false_eq_true, if_false]

end Reached

end Matcher

end Intake.Pattern
