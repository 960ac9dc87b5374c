import Intake.Proofs.Pattern.Instructions
import Intake.Proofs.Pattern.LineWise
import Intake.Segment.Boundary

/-! Blank lines found line by line. The loop of the pattern takes one bare line after the other and
stops where no further one is closed by a newline; so a search finds the separator behind each line
that bare lines follow, and goes on with the first line that is not one of them. -/
namespace Intake.Boundary
open Pattern (CharSet Found Matcher Met Way explore visit)
open Text (OneLine ended joinLines)

/- A line of nothing but spaces and tabs. -/
def Bare (l : Text) : Prop := ∀ c ∈ l, c = ' ' ∨ c = '\t'

instance : DecidablePred Bare := fun l => List.decidableBAll (fun c => c = ' ' ∨ c = '\t') l

/- The bare lines that some lines open with. The last of all lines has no newline and does not count. -/
def bareRun (ls : List Text) : List Text := ls.dropLast.takeWhile (fun l => decide (Bare l))

/- The separators between lines from a position on: one behind each line that bare lines follow, but
for a line that is within such a run itself. -/
def runsBehind (start : Nat) (within : Bool) : List Text → List Span
  | [] => []
  | l :: ls =>
    let later := runsBehind (start + Text.size l + 1) true ls
    if bareRun ls = [] ∨ (within = true ∧ Bare l) then later
    else ⟨start + Text.size l, start + Text.size l + 1 + Text.size (ended (bareRun ls))⟩ :: later

section Runs
variable {l : Text} {ls : List Text}

theorem bareRunCons (l : Text) (ls : List Text) :
    bareRun (l :: ls) = if Bare l ∧ ls ≠ [] then l :: bareRun ls else [] := by
  cases ls with
  | nil => simp [bareRun]
  | cons m ls =>
    by_cases bare : Bare l
    · simp [bareRun, bare]
    · simp [bareRun, bare]

theorem bareRunBare : ∀ l ∈ bareRun ls, Bare l := fun l member =>
  of_decide_eq_true (List.all_eq_true.mp List.all_takeWhile l member)

/- Behind a run there is a line, which would belong to it but for its characters or for being last. -/
theorem bareRunRest (some : ls ≠ []) :
    ∃ l rest, ls = bareRun ls ++ l :: rest ∧ (¬ Bare l ∨ rest = []) := by
  induction ls with
  | nil => exact absurd rfl some
  | cons l ls ih =>
    rw [bareRunCons]
    by_cases more : Bare l ∧ ls ≠ []
    · obtain ⟨m, rest, parts, ends⟩ := ih more.2
      rw [if_pos more]
      exact ⟨m, rest, by rw [List.cons_append, ← parts], ends⟩
    · rw [if_neg more]
      refine ⟨l, ls, rfl, ?_⟩
      by_cases bare : Bare l
      · exact .inr (Classical.byContradiction fun further => more ⟨bare, further⟩)
      · exact .inl bare

/- Within a run nothing begins. -/
theorem runsPassed {front : List Text} (bare : ∀ l ∈ front, Bare l) (start : Nat) (rest : List Text) :
    runsBehind start true (front ++ rest) =
      runsBehind (start + Text.size (ended front)) true rest := by
  induction front generalizing start with
  | nil => rfl
  | cons l front ih =>
    have here : Bare l := bare l List.mem_cons_self
    have next : start + Text.size l + 1 + Text.size (ended front) =
        start + Text.size (ended (l :: front)) := by
      rw [Text.sizeEnded]; omega
    rw [List.cons_append, runsBehind, if_pos (.inr ⟨rfl, here⟩),
      ih (fun k hk => bare k (List.mem_cons_of_mem l hk)), next]

/- Behind a line that ends a run it does not matter what stood in front. -/
theorem runsAfresh (start : Nat) {rest : List Text} (ends : ¬ Bare l ∨ rest = []) :
    runsBehind start true (l :: rest) = runsBehind start false (l :: rest) := by
  rcases ends with shown | last
  · simp [runsBehind, shown]
  · simp [runsBehind, last, bareRun]

/- Behind a run it goes on with the line that ends it. -/
theorem runsResume (some_ : ls ≠ []) : ∃ l rest, ls = bareRun ls ++ l :: rest ∧ (¬ Bare l ∨ rest = []) ∧
    ∀ start, runsBehind start true ls =
      runsBehind (start + Text.size (ended (bareRun ls))) false (l :: rest) := by
  obtain ⟨l, rest, parts, ends⟩ := bareRunRest some_
  refine ⟨l, rest, parts, ends, fun start => ?_⟩
  rw [← runsAfresh _ ends, ← runsPassed bareRunBare, ← parts]

end Runs

/- The code of the pattern: from address 1 on a line is read, and at 5 it is left behind. -/
theorem blankCode : blankLines.matcher.code = #[.take (.single '\n'), .fork 2 4,
    .take (.ofList [' ', '\t']), .jump 1, .take (.single '\n'), .fork 1 6] := rfl

/- From some offsets on neither of the forks was met. -/
structure Fresh (met : Met) (loop again : Nat) : Prop where
  loop : ∀ n, loop ≤ n → met.contains (visit blankLines.matcher.code 1 n) = false
  again : ∀ n, again ≤ n → met.contains (visit blankLines.matcher.code 5 n) = false

section Fresh
variable {met : Met} {loop again : Nat}

theorem freshNone : Fresh ∅ loop again :=
  ⟨fun _ _ => Std.HashSet.contains_empty, fun _ _ => Std.HashSet.contains_empty⟩

theorem freshLater (fresh : Fresh met loop again) {loop' again' : Nat} (further : loop ≤ loop')
    (further' : again ≤ again') : Fresh met loop' again' :=
  ⟨fun n le => fresh.loop n (Nat.le_trans further le),
    fun n le => fresh.again n (Nat.le_trans further' le)⟩

/- A fork is met where it is, and no other one with it. -/
theorem insertApart (met : Met) {a b m n : Nat} (inA : a < 6) (inB : b < 6) (apart : a ≠ b ∨ m ≠ n) :
    (met.insert (visit blankLines.matcher.code a m)).contains (visit blankLines.matcher.code b n) =
      met.contains (visit blankLines.matcher.code b n) := by
  have size : blankLines.matcher.code.size = 6 := congrArg Array.size blankCode
  have differ : (visit blankLines.matcher.code a m == visit blankLines.matcher.code b n) = false := by
    rw [Pattern.visitSame (by rw [size]; exact inA) (by rw [size]; exact inB), Bool.and_eq_false_iff,
      decide_eq_false_iff_not, decide_eq_false_iff_not]
    exact apart
  rw [Std.HashSet.contains_insert, differ, Bool.false_or]

theorem freshLoop (fresh : Fresh met loop again) :
    Fresh (met.insert (visit blankLines.matcher.code 1 loop)) (loop + 1) again := by
  constructor
  · intro n le
    rw [insertApart met (by decide) (by decide) (.inr (by omega))]
    exact fresh.loop n (by omega)
  · intro n le
    rw [insertApart met (by decide) (by decide) (.inl (by decide))]
    exact fresh.again n le

theorem freshAgain (fresh : Fresh met loop again) :
    Fresh (met.insert (visit blankLines.matcher.code 5 again)) loop (again + 1) := by
  constructor
  · intro n le
    rw [insertApart met (by decide) (by decide) (.inl (by decide))]
    exact fresh.loop n le
  · intro n le
    rw [insertApart met (by decide) (by decide) (.inr (by omega))]
    exact fresh.again n (by omega)

end Fresh

section Loop
variable (rest : Text) (before : Option Char) {offset again : Nat} {met : Met}
  (fresh : Fresh met offset again)
include fresh

/- A character that the loop takes. -/
theorem loopSpace {c : Char} (space : c = ' ' ∨ c = '\t') : ∃ met',
    explore blankLines.matcher.code (c :: rest) offset before 1 met =
      explore blankLines.matcher.code rest (offset + c.utf8Size) (some c) 1 met' ∧
    Fresh met' (offset + c.utf8Size) again := by
  have positive := Text.charPositive c
  have taken : (CharSet.ofList [' ', '\t']).holds c = true := by simpa using space
  have missed : (CharSet.single '\n').holds c = false := by
    rcases space with rfl | rfl <;> simp
  refine ⟨_, ?_, freshLater (freshLoop fresh) (by omega) (Nat.le_refl _)⟩
  have unmet := fresh.loop offset (Nat.le_refl _)
  have inner : ∀ met', explore blankLines.matcher.code (c :: rest) offset before 2 met' =
      explore blankLines.matcher.code rest (offset + c.utf8Size) (some c) 1 met' := by
    intro met'
    have back : blankLines.matcher.code[3]? = some (.jump 1) := rfl
    rw [Pattern.exploreTaken (a := 2) rfl taken, Pattern.exploreJump back]
  cases found : explore blankLines.matcher.code rest (offset + c.utf8Size) (some c) 1
      (met.insert (visit blankLines.matcher.code 1 offset)) with
  | mk way met' =>
    rw [← inner] at found
    cases way with
    | some way => exact Pattern.exploreForkFirst (q := 2) (r := 4) rfl unmet found
    | none =>
      rw [Pattern.exploreForkOther (q := 2) (r := 4) rfl unmet found]
      exact Pattern.exploreMissed (a := 4) rfl (by simpa using missed)

/- Where the loop takes no character it is left. -/
theorem loopLeft (misses : ∀ c ∈ rest.head?, c ≠ ' ' ∧ c ≠ '\t') :
    explore blankLines.matcher.code rest offset before 1 met =
      explore blankLines.matcher.code rest offset before 4
        (met.insert (visit blankLines.matcher.code 1 offset)) := by
  have missed : ∀ c ∈ rest.head?, (CharSet.ofList [' ', '\t']).holds c = false := fun c ahead => by
    simp [misses c ahead]
  exact Pattern.exploreForkOther (q := 2) (r := 4) rfl (fresh.loop offset (Nat.le_refl _))
    (Pattern.exploreMissed (a := 2) rfl missed)

/- The newline that ends a bare line. -/
theorem loopNewline : ∃ met',
    explore blankLines.matcher.code ('\n' :: rest) offset before 1 met =
      explore blankLines.matcher.code rest (offset + 1) (some '\n') 5 met' ∧
    Fresh met' (offset + 1) again := by
  refine ⟨_, ?_, freshLoop fresh⟩
  rw [loopLeft ('\n' :: rest) before fresh (by simp)]
  exact Pattern.exploreTaken (a := 4) rfl (by simp)

/- Anything else, or the end of the text. -/
theorem loopElse (other : ∀ c ∈ rest.head?, ¬ (c = ' ' ∨ c = '\t') ∧ c ≠ '\n') : ∃ met',
    explore blankLines.matcher.code rest offset before 1 met = (none, met') ∧
    Fresh met' (offset + 1) again := by
  refine ⟨_, ?_, freshLoop fresh⟩
  rw [loopLeft rest before fresh fun c ahead => not_or.mp (other c ahead).1]
  exact Pattern.exploreMissed (a := 4) rfl fun c ahead => by simp [(other c ahead).2]

theorem loopSpaces {w : Text} (bare : Bare w) : ∃ before' met',
    explore blankLines.matcher.code (w ++ rest) offset before 1 met =
      explore blankLines.matcher.code rest (offset + Text.size w) before' 1 met' ∧
    Fresh met' (offset + Text.size w) again := by
  induction w generalizing offset before met with
  | nil => exact ⟨before, met, rfl, fresh⟩
  | cons c w ih =>
    obtain ⟨met₁, step, fresh₁⟩ := loopSpace (w ++ rest) before fresh
      (bare c List.mem_cons_self)
    obtain ⟨before', met', steps, fresh'⟩ := ih (some c) fresh₁
      fun d hd => bare d (List.mem_cons_of_mem c hd)
    rw [Nat.add_assoc, ← Text.sizeCons] at steps fresh'
    exact ⟨before', met', step.trans steps, fresh'⟩

/- A bare line that a newline closes is read as a whole. -/
theorem loopOn {l : Text} (bare : Bare l) : ∃ met',
    explore blankLines.matcher.code (l ++ '\n' :: rest) offset before 1 met =
      explore blankLines.matcher.code rest (offset + Text.size l + 1) (some '\n') 5 met' ∧
    Fresh met' (offset + Text.size l + 1) again := by
  obtain ⟨before', met₁, steps, fresh₁⟩ := loopSpaces ('\n' :: rest) before fresh bare
  obtain ⟨met', step, fresh'⟩ := loopNewline rest before' fresh₁
  exact ⟨met', steps.trans step, fresh'⟩

/- On any other line the loop fails, and behind it no fork was met. -/
theorem loopFails {l : Text} {ls : List Text} (clean : OneLine l) (noRun : bareRun (l :: ls) = []) :
    ∃ met', explore blankLines.matcher.code (joinLines (l :: ls)) offset before 1 met =
      (none, met') ∧ Fresh met' (offset + Text.size l + 1) again := by
  have parts : ∃ w rest, joinLines (l :: ls) = w ++ rest ∧ Bare w ∧ Text.size w ≤ Text.size l ∧
      ∀ c ∈ rest.head?, ¬ (c = ' ' ∨ c = '\t') ∧ c ≠ '\n' := by
    rcases Text.allOrFirst (p := fun c => c = ' ' ∨ c = '\t') l with
      bare | ⟨w, c, rest, rfl, bare, other⟩
    · have last : ls = [] := by
        cases ls with
        | nil => rfl
        | cons m ls =>
          rw [bareRunCons, if_pos ⟨bare, List.cons_ne_nil m ls⟩] at noRun
          cases noRun
      exact ⟨l, [], by rw [last, List.append_nil]; rfl, bare, Nat.le_refl _, by simp⟩
    · obtain ⟨after, joined⟩ := Text.joinLinesOpens (w ++ c :: rest) ls
      have inLine : c ≠ '\n' := by simpa [Text.isNewline] using clean c (by simp)
      have whole := joined.trans (List.append_assoc w (c :: rest) after)
      have short : Text.size w ≤ Text.size (w ++ c :: rest) := by rw [Text.sizeAppend]; omega
      exact ⟨w, _, whole, bare, short, fun d head => Option.some.inj head ▸ ⟨other, inLine⟩⟩
  obtain ⟨w, rest, whole, bare, short, other⟩ := parts
  obtain ⟨before', met₁, steps, fresh₁⟩ := loopSpaces rest before fresh bare
  obtain ⟨met', step, fresh'⟩ := loopElse rest before' fresh₁ other
  rw [whole]
  exact ⟨met', steps.trans step, freshLater fresh' (by omega) (Nat.le_refl _)⟩

end Loop

/- Where a line was left behind, further bare lines are read as long as there are any. -/
theorem againRun {ls : List Text} (some_ : ls ≠ []) (clean : ∀ l ∈ ls, OneLine l)
    (before : Option Char) {offset : Nat} {met : Met} (fresh : Fresh met offset offset) : ∃ met',
    explore blankLines.matcher.code (joinLines ls) offset before 5 met =
      (some ⟨offset + Text.size (ended (bareRun ls)), []⟩, met') := by
  induction ls generalizing offset before met with
  | nil => exact absurd rfl some_
  | cons l ls ih =>
    have unmet := fresh.again offset (Nat.le_refl _)
    -- The fork behind a line is met before the loop is tried again, so it is fresh further on only.
    have inner := freshAgain fresh
    by_cases more : Bare l ∧ ls ≠ []
    · obtain ⟨met₁, steps, fresh₁⟩ := loopOn (joinLines ls) before inner more.1
      have onward := freshLater fresh₁ (Nat.le_refl _) (by omega : _ ≤ offset + Text.size l + 1)
      obtain ⟨met', found⟩ := ih more.2 (fun k hk => clean k (List.mem_cons_of_mem l hk)) (some '\n') onward
      have reached : offset + Text.size l + 1 + Text.size (ended (bareRun ls)) =
          offset + Text.size (ended (bareRun (l :: ls))) := by
        rw [bareRunCons l, if_pos more, Text.sizeEnded]; omega
      rw [← steps, reached, ← Text.joinLinesCons l more.2] at found
      exact ⟨met', Pattern.exploreForkFirst (q := 1) (r := 6) rfl unmet found⟩
    · have noRun : bareRun (l :: ls) = [] := by rw [bareRunCons, if_neg more]
      obtain ⟨met', failed, -⟩ := loopFails before inner (clean l List.mem_cons_self) noRun
      rw [noRun, Pattern.exploreForkOther (q := 1) (r := 6) rfl unmet failed]
      exact ⟨met', Pattern.exploreDone (a := 6) rfl⟩

/- Behind a newline the loop reads the bare lines that follow; without any it fails. -/
theorem loopRun {ls : List Text} (clean : ∀ l ∈ ls, OneLine l) (run : bareRun ls ≠ [])
    (before : Option Char) {offset : Nat} {met : Met} (fresh : Fresh met offset offset) : ∃ met',
    explore blankLines.matcher.code (joinLines ls) offset before 1 met =
      (some ⟨offset + Text.size (ended (bareRun ls)), []⟩, met') := by
  cases ls with
  | nil => exact absurd rfl run
  | cons l ls =>
    rw [bareRunCons] at run ⊢
    split at run
    · rename_i more
      obtain ⟨met₁, steps, fresh₁⟩ := loopOn (joinLines ls) before fresh more.1
      obtain ⟨met', found⟩ := againRun more.2 (fun k hk => clean k (List.mem_cons_of_mem l hk))
        (some '\n') (freshLater fresh₁ (Nat.le_refl _) (by omega))
      rw [if_pos more, Text.joinLinesCons l more.2, steps, found, Text.sizeEnded]
      exact ⟨met', by rw [Nat.add_assoc offset, Nat.add_assoc offset]⟩
    · exact absurd rfl run

/- Within a line no separator begins. -/
theorem searchLine {l : Text} (clean : OneLine l) (rest : Text) {offset : Nat} (before : Option Char)
    (met : Met) {last : Option Nat} (reached : last.any (offset < ·) = false) : ∃ before',
    blankLines.matcher.findFrom last met offset before (l ++ rest) =
      blankLines.matcher.findFrom last met (offset + Text.size l) before' rest := by
  induction l generalizing offset before with
  | nil => exact ⟨before, rfl⟩
  | cons c l ih =>
    have inLine : c ≠ '\n' := by simpa [Text.isNewline] using clean c List.mem_cons_self
    have failed : explore blankLines.matcher.code (c :: (l ++ rest)) offset before 0 met = (none, met) :=
      Pattern.exploreMissed (a := 0) rfl (by simpa using inLine)
    obtain ⟨before', later⟩ := ih (fun d hd => clean d (List.mem_cons_of_mem c hd)) (some c)
      (Matcher.notFurther reached (Nat.le_add_right offset c.utf8Size))
    rw [Nat.add_assoc, ← Text.sizeCons] at later
    exact ⟨before', (Matcher.findFromFails reached failed).trans later⟩

theorem newlineTaken (rest : Text) (offset : Nat) (before : Option Char) (met : Met) :
    explore blankLines.matcher.code ('\n' :: rest) offset before 0 met =
      explore blankLines.matcher.code rest (offset + 1) (some '\n') 1 met :=
  Pattern.exploreTaken (a := 0) rfl (by simp)

section Newline
variable {ls : List Text} (clean : ∀ l ∈ ls, OneLine l) {offset : Nat} (before : Option Char) {met : Met}
  {last : Option Nat} (reached : last.any (offset < ·) = false)
  (fresh : Fresh met (offset + 1) (offset + 1))
include clean reached fresh

/- At a newline that no bare lines follow the search fails and leaves the forks of later lines alone. -/
theorem newlineAlone (some_ : ls ≠ []) (noRun : bareRun ls = []) : ∃ met',
    blankLines.matcher.findFrom last met offset before ('\n' :: joinLines ls) =
      blankLines.matcher.findFrom last met' (offset + 1) (some '\n') (joinLines ls) ∧
    ∀ l ∈ ls.head?, Fresh met' (offset + 1 + Text.size l + 1) (offset + 1 + Text.size l + 1) := by
  cases ls with
  | nil => exact absurd rfl some_
  | cons l ls =>
    obtain ⟨met', failed, fresh'⟩ := loopFails (some '\n') fresh
      (clean l List.mem_cons_self) noRun
    rw [← newlineTaken _ offset before met] at failed
    refine ⟨met', Matcher.findFromFails reached failed, fun k head => ?_⟩
    obtain rfl := Option.some.inj head
    exact freshLater fresh' (Nat.le_refl _) (by omega)

/- At one that bare lines follow the search finds them, and goes on behind them. -/
theorem newlineRun (run : bareRun ls ≠ []) {rest : List Text} (some_ : rest ≠ [])
    (parts : ls = bareRun ls ++ rest) : ∃ before',
    (blankLines.matcher.findFrom last met offset before ('\n' :: joinLines ls)).map (·.span) =
      ⟨offset, offset + 1 + Text.size (ended (bareRun ls))⟩ ::
        (blankLines.matcher.findFrom (some (offset + 1 + Text.size (ended (bareRun ls)))) ∅
          (offset + 1 + Text.size (ended (bareRun ls))) before' (joinLines rest)).map (·.span) := by
  have newline : ('\n').utf8Size = 1 := rfl
  have text : joinLines ls = ended (bareRun ls) ++ joinLines rest := by
    rw [← Text.joinLinesAppend _ some_, ← parts]
  have stop : offset + 1 + Text.size (ended (bareRun ls)) =
      offset + Text.size ('\n' :: ended (bareRun ls)) := by
    rw [Text.sizeCons, newline, Nat.add_assoc]
  obtain ⟨met', found⟩ := loopRun clean run (some '\n') fresh
  rw [← newlineTaken _ offset before met] at found
  have further : offset < offset + 1 + Text.size (ended (bareRun ls)) := by omega
  obtain ⟨before', passed⟩ := Matcher.findFromTaken blankLines.matcher (ended (bareRun ls)) (joinLines rest)
    (offset + 1) (some '\n') ∅
  refine ⟨before', ?_⟩
  rw [Matcher.findFromFinds reached further found, List.map_cons, newline, text, passed,
    ← List.cons_append, stop, Found.spanRead rfl]

end Newline

/- A search from the start of a line on, with no fork met from the next line on, is one step up to the
next line or behind the run that follows. -/
theorem searchRuns {ls : List Text} (clean : ∀ l ∈ ls, OneLine l) {offset : Nat}
    {before : Option Char} {met : Met} {last : Option Nat} (reached : last.any (offset < ·) = false)
    (fresh : ∀ l ∈ ls.head?, Fresh met (offset + Text.size l + 1) (offset + Text.size l + 1)) :
    (blankLines.matcher.findFrom last met offset before (joinLines ls)).map (·.span) =
      runsBehind offset false ls := by
  have atEnd : ∀ offset before last met, blankLines.matcher.findFrom last met offset before [] = [] :=
    fun _ _ _ _ => Matcher.findFromEnd (Pattern.exploreMissed (a := 0) rfl (by simp))
  induction length : ls.length using Nat.strongRecOn generalizing ls offset before met last with
  | ind n ih =>
    cases ls with
    | nil => rw [joinLines, atEnd]; rfl
    | cons l ls =>
      have here := clean l List.mem_cons_self
      by_cases more : ls = []
      · obtain ⟨before', line⟩ := searchLine here [] before met reached
        rw [List.append_nil, atEnd] at line
        rw [more, joinLines, line]
        rfl
      · have later : ∀ k ∈ ls, OneLine k := fun k hk => clean k (List.mem_cons_of_mem l hk)
        have passed := Matcher.notFurther reached (Nat.le_add_right offset (Text.size l))
        have unmet := fresh l rfl
        obtain ⟨before', line⟩ := searchLine here ('\n' :: joinLines ls) before met reached
        obtain ⟨m, rest, parts, -, behind⟩ := runsResume more
        have fewer := congrArg List.length parts
        rw [List.length_append] at fewer
        rw [List.length_cons] at length
        rw [Text.joinLinesCons l more, line, runsBehind]
        by_cases run : bareRun ls = []
        · obtain ⟨met', step, unmet'⟩ := newlineAlone later before' passed unmet more run
          rw [step, if_pos (.inl run), behind, run, ended, List.flatMap_nil, Text.sizeNil, Nat.add_zero]
          rw [run, List.nil_append] at parts
          rw [← parts]
          exact ih _ (by omega) later (Matcher.notFurther passed (Nat.le_succ _)) unmet' rfl
        -- Behind a match the forks count as unmet again, and what it took is passed over.
        · obtain ⟨before'', step⟩ := newlineRun later before' passed unmet run
            (List.cons_ne_nil m rest) parts
          rw [step, if_neg (by simp [run]), behind]
          refine congrArg (List.cons _) (ih _ (by omega) ?_ ?_ ?_ rfl)
          · exact fun k hk => later k (by rw [parts]; exact List.mem_append_right _ hk)
          · simp
          · exact fun _ _ => freshNone

/- The separators of paragraphs, line by line. -/
theorem blankLineRuns (t : Text) : blankLineSpans t = runsBehind 0 false t.lines := by
  have found : (blankLines.matcher.findFrom none ∅ 0 none (joinLines t.lines)).map (·.span) =
      runsBehind 0 false t.lines :=
    searchRuns (fun _ member => Text.linesClean member) rfl fun _ _ => freshNone
  rwa [Text.joinLinesLines] at found

end Intake.Boundary
