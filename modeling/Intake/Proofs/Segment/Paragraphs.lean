import Intake.Proofs.Segment.BlankLines
import Intake.Proofs.Segment.Separation

/-! Paragraphs by lines. The separators of paragraphs are the widest blocks of bare lines between two
other lines, from the end of the line in front to the start of the line behind, and the paragraphs are
what they leave between them; so texts with a blank line between them have their paragraphs side by
side. -/
namespace Intake.Boundary
open Text (Blank ended joinLines)

def BareAt (ls : List Text) (k : Nat) : Prop := ∃ l, ls[k]? = some l ∧ Bare l

/- Bare lines in a row, neither the first nor the last line of all among them. -/
structure BareBlock (ls : List Text) (i j : Nat) : Prop where
  first : 1 ≤ i
  order : i ≤ j
  last : j + 1 < ls.length
  bare : ∀ k, i ≤ k → k ≤ j → BareAt ls k

/- A block that no other one goes beyond. -/
structure WidestBlock (ls : List Text) (i j : Nat) : Prop extends BareBlock ls i j where
  widest : ∀ i' j', BareBlock ls i' j' → i' ≤ i → j ≤ j' → i' = i ∧ j' = j

/- From the end of the line in front of a block to the start of the line behind it. -/
def Separates (ls : List Text) (i j : Nat) (s : Span) : Prop :=
  ∃ p q, (Text.lineSpans 0 ls)[i - 1]? = some p ∧ (Text.lineSpans 0 ls)[j + 1]? = some q ∧
    s = ⟨p.stop, q.start⟩

/- The lines between two others are bare, and those two are not, unless the one is the first of all (and
not within a run) or the other the last. -/
structure Encloses (within : Bool) (ls : List Text) (a b : Nat) : Prop where
  order : a + 1 < b
  last : b < ls.length
  bare : ∀ k, a < k → k < b → BareAt ls k
  opens : ¬ BareAt ls a ∨ (a = 0 ∧ within = false)
  closes : ¬ BareAt ls b ∨ b + 1 = ls.length

section Blocks
variable {l : Text} {ls : List Text} {within : Bool} {a b : Nat}

@[simp] theorem bareAtZero : BareAt (l :: ls) 0 ↔ Bare l := by simp [BareAt]

@[simp] theorem bareAtSucc {k : Nat} : BareAt (l :: ls) (k + 1) ↔ BareAt ls k := by simp [BareAt]

theorem bareAtInside {run rest : List Text} (bare : ∀ l ∈ run, Bare l) {k : Nat}
    (inside : k < run.length) : BareAt (run ++ rest) k := by
  refine ⟨run[k], ?_, bare _ (List.getElem_mem inside)⟩
  rw [List.getElem?_append_left inside, List.getElem?_eq_getElem inside]

theorem bareAtBehind {run rest : List Text} : BareAt (run ++ l :: rest) run.length ↔ Bare l := by
  simp [BareAt]

/- How far the run goes that lines open with. -/
theorem bareRunAt (some_ : ls ≠ []) : (bareRun ls).length < ls.length ∧
    (∀ k, k < (bareRun ls).length → BareAt ls k) ∧
    (¬ BareAt ls (bareRun ls).length ∨ (bareRun ls).length + 1 = ls.length) := by
  obtain ⟨m, rest, parts, ends⟩ := bareRunRest some_
  have bare : ∀ k ∈ bareRun ls, Bare k := bareRunBare
  generalize bareRun ls = run at parts bare
  subst parts
  refine ⟨by simp, fun k inside => bareAtInside bare inside, ?_⟩
  rw [bareAtBehind]
  exact ends.imp_right fun none => by simp [none]

theorem enclosesLater : Encloses within (l :: ls) (a + 1) (b + 1) ↔ Encloses true ls a b := by
  constructor
  · intro encloses
    exact {
      order := Nat.lt_of_succ_lt_succ encloses.order
      last := Nat.lt_of_succ_lt_succ encloses.last
      bare := fun k low high => bareAtSucc.mp (encloses.bare (k + 1) (by omega) (by omega))
      opens := by simpa using encloses.opens
      closes := by simpa using encloses.closes }
  · intro encloses
    exact {
      order := Nat.succ_lt_succ encloses.order
      last := Nat.succ_lt_succ encloses.last
      bare := by
        intro k low high
        obtain ⟨k, rfl⟩ : ∃ n, k = n + 1 := ⟨k - 1, by omega⟩
        exact bareAtSucc.mpr (encloses.bare k (by omega) (by omega))
      opens := by simpa using encloses.opens
      closes := by simpa using encloses.closes }

/- Behind the first line just the run is enclosed that follows it. -/
theorem enclosesFirst : Encloses within (l :: ls) 0 b ↔
    b = (bareRun ls).length + 1 ∧ ¬ (bareRun ls = [] ∨ (within = true ∧ Bare l)) := by
  have opened : (¬ Bare l ∨ within = false) ↔ ¬ (within = true ∧ Bare l) := by
    cases within <;> simp
  constructor
  · intro encloses
    obtain ⟨k, rfl⟩ : ∃ k, b = k + 1 := ⟨b - 1, by have := encloses.order; omega⟩
    have inside := Nat.lt_of_succ_lt_succ encloses.last
    have some_ : ls ≠ [] := List.ne_nil_of_length_pos (Nat.zero_lt_of_lt inside)
    obtain ⟨short, bare, ends⟩ := bareRunAt some_
    have inRun : ∀ n, n < k → BareAt ls n := fun n less =>
      bareAtSucc.mp (encloses.bare (n + 1) (Nat.succ_pos n) (Nat.succ_lt_succ less))
    have closes : ¬ BareAt ls k ∨ k + 1 = ls.length := by simpa using encloses.closes
    -- A block that ended earlier would go on, and one that went further would take what ends the run.
    have same : k = (bareRun ls).length := by
      rcases Nat.lt_trichotomy k (bareRun ls).length with less | same | more
      · rcases closes with shown | last
        · exact absurd (bare k less) shown
        · omega
      · exact same
      · rcases ends with shown | last
        · exact absurd (inRun _ more) shown
        · omega
    have order := encloses.order
    refine ⟨by rw [same], fun neither => ?_⟩
    rcases neither with none | inner
    · rw [none, List.length_nil] at same
      omega
    · exact opened.mp (by simpa using encloses.opens) inner
  · intro both
    obtain ⟨place, neither⟩ := both
    rw [not_or] at neither
    have some_ : ls ≠ [] := fun none => neither.1 (by rw [none]; rfl)
    obtain ⟨short, bare, ends⟩ := bareRunAt some_
    have long := List.length_pos_iff.mpr neither.1
    subst place
    exact {
      order := Nat.succ_lt_succ long
      last := Nat.succ_lt_succ short
      bare := by
        intro k low high
        obtain ⟨k, rfl⟩ : ∃ n, k = n + 1 := ⟨k - 1, by omega⟩
        exact bareAtSucc.mpr (bare k (by omega))
      opens := by simpa using opened.mpr neither.2
      closes := by simpa using ends }

end Blocks

/- Behind a run there is a line, at the place where the run ends. -/
theorem lineBehindRun {ls : List Text} (some_ : ls ≠ []) (start : Nat) : ∃ stop,
    (Text.lineSpans start ls)[(bareRun ls).length]? =
      some ⟨start + Text.size (ended (bareRun ls)), stop⟩ := by
  obtain ⟨m, rest, parts, -⟩ := bareRunRest some_
  generalize bareRun ls = run at parts
  subst parts
  refine ⟨start + Text.size (ended run) + Text.size m, ?_⟩
  have front := Text.lineSpansLength start run
  rw [Text.lineSpansAppend, List.getElem?_append_right (Nat.le_of_eq front), front, Nat.sub_self]
  rfl

/- Separators stand where lines enclose bare ones. -/
theorem runsEnclosed (ls : List Text) (start : Nat) (within : Bool) (s : Span) :
    s ∈ runsBehind start within ls ↔ ∃ a b p q, Encloses within ls a b ∧
      (Text.lineSpans start ls)[a]? = some p ∧ (Text.lineSpans start ls)[b]? = some q ∧
      s = ⟨p.stop, q.start⟩ := by
  induction ls generalizing start within with
  | nil =>
    constructor
    · intro member
      cases member
    · intro found
      obtain ⟨_, _, _, _, encloses, -⟩ := found
      exact absurd encloses.last (Nat.not_lt_zero _)
  | cons l ls ih =>
    have either : s ∈ runsBehind start within (l :: ls) ↔
        (¬ (bareRun ls = [] ∨ (within = true ∧ Bare l)) ∧ s = ⟨start + Text.size l,
          start + Text.size l + 1 + Text.size (ended (bareRun ls))⟩) ∨
        s ∈ runsBehind (start + Text.size l + 1) true ls := by
      rw [runsBehind]
      split
      · rename_i nothing
        simp [nothing]
      · rename_i run
        simp [run]
    rw [either, ih]
    constructor
    · intro found
      rcases found with ⟨run, rfl⟩ | ⟨a, b, p, q, encloses, here, there, rfl⟩
      · have some_ : ls ≠ [] := fun none => run (.inl (by rw [none]; rfl))
        obtain ⟨stop, behind⟩ := lineBehindRun some_ (start + Text.size l + 1)
        exact ⟨0, _, _, _, enclosesFirst.mpr ⟨rfl, run⟩, rfl, behind, rfl⟩
      · exact ⟨a + 1, b + 1, p, q, enclosesLater.mpr encloses, here, there, rfl⟩
    · intro found
      obtain ⟨a, b, p, q, encloses, here, there, between⟩ := found
      cases a with
      | zero =>
        obtain ⟨rfl, run⟩ := enclosesFirst.mp encloses
        have some_ : ls ≠ [] := fun none => run (.inl (by rw [none]; rfl))
        obtain ⟨stop, behind⟩ := lineBehindRun some_ (start + Text.size l + 1)
        obtain rfl := Option.some.inj here
        obtain rfl := Option.some.inj (behind.symm.trans there)
        exact .inl ⟨run, between⟩
      | succ a =>
        obtain ⟨b, rfl⟩ : ∃ n, b = n + 1 := ⟨b - 1, by have := encloses.order; omega⟩
        exact .inr ⟨a, b, p, q, enclosesLater.mp encloses, here, there, between⟩

/- The widest blocks are those that lines enclose. -/
theorem widestEncloses {ls : List Text} {i j : Nat} :
    WidestBlock ls i j ↔ 1 ≤ i ∧ Encloses false ls (i - 1) (j + 1) := by
  constructor
  · intro block
    have first := block.first
    have order := block.order
    have last := block.last
    -- Were one of the two lines bare that are next to the block, the block could be wider.
    have opens : ¬ BareAt ls (i - 1) ∨ i - 1 = 0 := by
      by_cases begins : i - 1 = 0
      · exact .inr begins
      · refine .inl fun bare => ?_
        have wider : BareBlock ls (i - 1) j := ⟨by omega, by omega, last, fun k low high => by
          rcases Nat.eq_or_lt_of_le low with rfl | inside
          · exact bare
          · exact block.bare k (by omega) high⟩
        have same := (block.widest _ _ wider (by omega) (Nat.le_refl j)).1
        omega
    have closes : ¬ BareAt ls (j + 1) ∨ j + 1 + 1 = ls.length := by
      by_cases ends : j + 1 + 1 = ls.length
      · exact .inr ends
      · refine .inl fun bare => ?_
        have wider : BareBlock ls i (j + 1) := ⟨first, by omega, by omega, fun k low high => by
          rcases Nat.eq_or_lt_of_le high with rfl | inside
          · exact bare
          · exact block.bare k low (by omega)⟩
        have same := (block.widest _ _ wider (Nat.le_refl i) (Nat.le_succ j)).2
        omega
    exact ⟨first, by omega, last, fun k low high => block.bare k (by omega) (by omega),
      opens.imp_right fun begins => ⟨begins, rfl⟩, closes⟩
  · intro both
    obtain ⟨first, encloses⟩ := both
    have order := encloses.order
    refine ⟨⟨first, by omega, encloses.last, fun k low high => encloses.bare k (by omega) (by omega)⟩, ?_⟩
    intro i' j' block low high
    have first' := block.first
    have last' := block.last
    constructor
    · rcases encloses.opens with shown | begins
      · have inside : ¬ i' ≤ i - 1 := fun le => shown (block.bare (i - 1) le (by omega))
        omega
      · omega
    · rcases encloses.closes with shown | ends
      · have inside : ¬ j + 1 ≤ j' := fun le => shown (block.bare (j + 1) (by omega) le)
        omega
      · omega

theorem blankLineBlocks (t : Text) (s : Span) :
    s ∈ blankLineSpans t ↔ ∃ i j, WidestBlock t.lines i j ∧ Separates t.lines i j s := by
  rw [blankLineRuns, runsEnclosed]
  constructor
  · intro found
    obtain ⟨a, b, p, q, encloses, here, there, between⟩ := found
    have order := encloses.order
    obtain ⟨j, rfl⟩ : ∃ j, b = j + 1 := ⟨b - 1, by omega⟩
    exact ⟨a + 1, j, widestEncloses.mpr ⟨Nat.succ_pos a, encloses⟩, p, q, here, there, between⟩
  · intro found
    obtain ⟨i, j, widest, p, q, here, there, between⟩ := found
    exact ⟨i - 1, j + 1, p, q, (widestEncloses.mp widest).2, here, there, between⟩

section Order
variable {start : Nat} {within : Bool} {s : Span}

/- A separator stands behind the first line, and a line stands behind a separator. -/
theorem runsLater {l : Text} {ls : List Text} (member : s ∈ runsBehind start within (l :: ls)) :
    start + Text.size l ≤ s.start ∧ s.start < s.stop ∧ ls ≠ [] := by
  induction ls generalizing start within l with
  | nil => simp [runsBehind, bareRun] at member
  | cons k ls ih =>
    have further : s ∈ runsBehind (start + Text.size l + 1) true (k :: ls) →
        start + Text.size l ≤ s.start ∧ s.start < s.stop ∧ k :: ls ≠ [] := by
      intro later
      obtain ⟨behind, proper, -⟩ := ih later
      exact ⟨by omega, proper, List.cons_ne_nil k ls⟩
    rw [runsBehind] at member
    split at member
    · exact further member
    · rcases List.mem_cons.mp member with rfl | later
      · exact ⟨Nat.le_refl _, by simp only; omega, List.cons_ne_nil k ls⟩
      · exact further later

theorem runsApart (ls : List Text) (start : Nat) (within : Bool) :
    (runsBehind start within ls).Pairwise (fun s r => s.stop < r.start) := by
  induction ls generalizing start within with
  | nil => exact .nil
  | cons l ls ih =>
    rw [runsBehind]
    split
    · exact ih _ _
    · rename_i run
      have some_ : ls ≠ [] := fun none => run (.inl (by rw [none]; rfl))
      obtain ⟨m, rest, -, ends, resume⟩ := runsResume some_
      refine List.pairwise_cons.mpr ⟨fun r later => ?_, ih _ _⟩
      rw [resume] at later
      obtain ⟨behind, -, more⟩ := runsLater later
      have shown : ¬ Bare m := ends.resolve_right more
      have long : Text.size m ≠ 0 := fun zero => shown (by rw [Text.sizeZero zero]; simp [Bare])
      simp only
      omega

theorem blankLinesApart (t : Text) :
    (blankLineSpans t).Pairwise (fun s r => s.stop < r.start) := by
  rw [blankLineRuns]
  exact runsApart t.lines 0 false

end Order

section Gaps

/- Proper spans that stand apart in order are separators as they are. -/
theorem mergeApart {last : Span} {spans : List Span}
    (apart : (last :: spans).Pairwise (fun s r => s.stop < r.start)) :
    mergeAfter last spans = last :: spans := by
  induction spans generalizing last with
  | nil => rfl
  | cons s rest ih =>
    obtain ⟨first, others⟩ := List.pairwise_cons.mp apart
    have beyond := first s List.mem_cons_self
    rw [mergeAfter, if_neg (by omega), ih others]

theorem separatorsAlready {spans : List Span} (proper : ∀ s ∈ spans, s.start ≤ s.stop)
    (apart : spans.Pairwise (fun s r => s.stop < r.start)) : separators spans = spans := by
  have sorted : spans.mergeSort Span.ordered = spans := by
    apply List.mergeSort_of_pairwise
    refine List.Pairwise.imp_of_mem (fun {s r} hs _ less => ?_) apart
    have order := proper s hs
    simp only [Span.ordered, Bool.or_eq_true, Bool.and_eq_true, decide_eq_true_eq, beq_iff_eq]
    omega
  rw [separators, sorted]
  cases spans with
  | nil => rfl
  | cons s rest => exact mergeApart apart

theorem blankLinesSeparate (t : Text) : separators (blankLineSpans t) = blankLineSpans t :=
  separatorsAlready (fun _ member => (Text.withinBound (blankLinesBlank member).1).1) (blankLinesApart t)

theorem blankLineGaps {t : Text} {g : Span} (member : g ∈ gaps 0 t.size (blankLineSpans t)) :
    t.Within g := by
  rw [← blankLinesSeparate] at member
  exact stretchesWithin (fun _ hs => (blankLinesBlank hs).1) g member

theorem paragraphsGaps (t : Text) : paragraphs t =
    (gaps 0 t.size (blankLineSpans t)).filter (fun g => decide (¬ Blank (t.slice g))) := by
  rw [paragraphs, piecesFilter, stretches, blankLinesSeparate]

theorem gapsAppend (start stop : Nat) (front : List Span) (m : Span) (back : List Span) :
    gaps start stop (front ++ m :: back) = gaps start m.start front ++ gaps m.stop stop back := by
  induction front generalizing start with
  | nil => rfl
  | cons s front ih => rw [List.cons_append, gaps, ih, gaps, List.cons_append]

theorem gapsShift (distance start stop : Nat) (spans : List Span) :
    gaps (start + distance) (stop + distance) (spans.map (Span.shift distance)) =
      (gaps start stop spans).map (Span.shift distance) := by
  induction spans generalizing start with
  | nil => rfl
  | cons s spans ih =>
    rw [List.map_cons, gaps, gaps, List.map_cons, ← ih]
    rfl

end Gaps

section Appending

theorem runsShift (distance : Nat) (ls : List Text) (start : Nat) (within : Bool) :
    runsBehind (start + distance) within ls = (runsBehind start within ls).map (Span.shift distance) := by
  induction ls generalizing start within with
  | nil => rfl
  | cons l ls ih =>
    have stop : start + distance + Text.size l = start + Text.size l + distance := by omega
    have next : start + Text.size l + distance + 1 = start + Text.size l + 1 + distance := by omega
    have behind : start + Text.size l + 1 + distance + Text.size (ended (bareRun ls)) =
        start + Text.size l + 1 + Text.size (ended (bareRun ls)) + distance := by omega
    rw [runsBehind, runsBehind, stop, next, behind, ih]
    split <;> rfl

variable {l m : Text} (shown : ¬ Bare l)
include shown

/- A run ends no later than a line that is not bare, whatever stands behind it. -/
theorem bareRunShown (front rest : List Text) : bareRun (front ++ l :: rest) = bareRun (front ++ [l]) := by
  induction front with
  | nil => rw [List.nil_append, bareRunCons, if_neg (fun both => shown both.1)]; rfl
  | cons k front ih =>
    rw [List.cons_append, List.cons_append, bareRunCons, bareRunCons k, ih]
    simp

/- An empty line between two lines that are not bare is a separator of its own. -/
theorem runsAppend {m : Text} (shown' : ¬ Bare m) (front rest : List Text) (start : Nat) (within : Bool) :
    runsBehind start within (front ++ l :: [] :: m :: rest) =
      runsBehind start within (front ++ [l]) ++
        ⟨start + Text.size (joinLines (front ++ [l])), start + Text.size (joinLines (front ++ [l])) + 2⟩ ::
          runsBehind (start + Text.size (joinLines (front ++ [l])) + 2) false (m :: rest) := by
  have noRun : bareRun (m :: rest) = [] := by rw [bareRunCons, if_neg (fun both => shown' both.1)]
  have emptyRun : bareRun ([] :: m :: rest) = [[]] := by
    rw [bareRunCons, if_pos ⟨by simp [Bare], List.cons_ne_nil m rest⟩, noRun]
  induction front generalizing start within with
  | nil =>
    have alone : runsBehind start within [l] = [] := by simp [runsBehind, bareRun]
    rw [List.nil_append, List.nil_append, alone, runsBehind, emptyRun, if_neg (by simp [shown]),
      runsBehind, noRun, if_pos (.inl rfl), runsAfresh _ (.inl shown')]
    rfl
  | cons k front ih =>
    have newline : ('\n').utf8Size = 1 := rfl
    have size : start + Text.size k + 1 + Text.size (joinLines (front ++ [l])) =
        start + Text.size (joinLines (k :: (front ++ [l]))) := by
      rw [Text.joinLinesCons k (by simp), Text.sizeAppend, Text.sizeCons, newline]; omega
    rw [List.cons_append, List.cons_append, runsBehind, runsBehind, bareRunShown shown, ih, size]
    split <;> rfl

end Appending

theorem blankLinesAppend {a b : Text} (shown : ∃ l, a.lines.getLast? = some l ∧ ¬ Bare l)
    (shown' : ∃ l, b.lines.head? = some l ∧ ¬ Bare l) : blankLineSpans (a ++ '\n' :: '\n' :: b) =
      blankLineSpans a ++ ⟨a.size, a.size + 2⟩ :: (blankLineSpans b).map (Span.shift (a.size + 2)) := by
  obtain ⟨l, last, visible⟩ := shown
  obtain ⟨m, first, visible'⟩ := shown'
  obtain ⟨front, linesA⟩ := List.getLast?_eq_some_iff.mp last
  obtain ⟨rest, linesB⟩ := List.head?_eq_some_iff.mp first
  have lines : (a ++ '\n' :: '\n' :: b).lines = front ++ l :: [] :: m :: rest := by
    have empty : Text.lines ('\n' :: b) = [] :: b.lines := rfl
    have whole : (a ++ '\n' :: '\n' :: b).lines = a.lines ++ Text.lines ('\n' :: b) :=
      Text.fieldsAppend a ('\n' :: b) rfl
    rw [whole, empty, linesA, linesB, List.append_assoc]
    rfl
  have joined : joinLines (front ++ [l]) = a := by rw [← linesA, Text.joinLinesLines]
  have shifted := runsShift (a.size + 2) b.lines 0 false
  rw [blankLineRuns, blankLineRuns, blankLineRuns, lines, runsAppend visible visible', joined, linesA,
    ← linesB, ← shifted]
  simp only [Nat.zero_add]

/- The gaps of both texts stand in the two together, those of the second further on. -/
theorem paragraphsAppend {a b : Text} (shown : ∃ l, a.lines.getLast? = some l ∧ ¬ Bare l)
    (shown' : ∃ l, b.lines.head? = some l ∧ ¬ Bare l) :
    paragraphs (a ++ '\n' :: '\n' :: b) =
      paragraphs a ++ (paragraphs b).map (Span.shift (a.size + 2)) := by
  have newline : ('\n').utf8Size = 1 := rfl
  have behind : Text.size (a ++ ['\n', '\n']) = a.size + 2 := by
    rw [Text.sizeAppend]; rfl
  have size : Text.size (a ++ '\n' :: '\n' :: b) = b.size + (a.size + 2) := by
    simp only [Text.sizeAppend, Text.sizeCons, newline]; omega
  have shifted := gapsShift (a.size + 2) 0 b.size (blankLineSpans b)
  rw [Nat.zero_add] at shifted
  rw [paragraphsGaps (a ++ '\n' :: '\n' :: b), blankLinesAppend shown shown', gapsAppend, size, shifted,
    List.filter_append, List.filter_map, paragraphsGaps a, paragraphsGaps b]
  congr 1
  · refine List.filter_congr fun g member => ?_
    rw [(Text.withinFront (blankLineGaps member) ('\n' :: '\n' :: b)).2]
  · refine congrArg (List.map _) (List.filter_congr fun g member => ?_)
    have inside := (Text.withinBehind (a ++ ['\n', '\n']) (blankLineGaps member)).2
    rw [behind, List.append_assoc] at inside
    exact congrArg (fun u => decide (¬ Blank u)) inside

/- Paragraph splitting told by lines: the separators in order, what they leave, and texts side by side. -/
theorem paragraphsByLines :
    (∀ t : Text, (blankLineSpans t).Pairwise (fun s r => s.stop < r.start) ∧
      (∀ s, s ∈ blankLineSpans t ↔ ∃ i j, WidestBlock t.lines i j ∧ Separates t.lines i j s) ∧
      paragraphs t = (gaps 0 t.size (blankLineSpans t)).filter (fun g => decide (¬ Blank (t.slice g)))) ∧
    ∀ a b : Text, (∃ l, a.lines.getLast? = some l ∧ ¬ Bare l) → (∃ l, b.lines.head? = some l ∧ ¬ Bare l) →
      paragraphs (a ++ '\n' :: '\n' :: b) =
        paragraphs a ++ (paragraphs b).map (Span.shift (a.size + 2)) :=
  ⟨fun t => ⟨blankLinesApart t, blankLineBlocks t, paragraphsGaps t⟩, fun _ _ => paragraphsAppend⟩

/- Two lines and, behind a blank one, five more, of which a tab and a space are a block. -/
theorem tabAndSpaceSeparate :
    let a : Text := "\u00e7\n x".toList
    let b : Text := "y\t\n\t\n \nz\n".toList
    (∃ i j, WidestBlock b.lines i j ∧ Separates b.lines i j ⟨2, 7⟩) ∧
    (∃ l, a.lines.getLast? = some l ∧ ¬ Bare l) ∧ (∃ l, b.lines.head? = some l ∧ ¬ Bare l) ∧
    paragraphs (a ++ '\n' :: '\n' :: b) = [⟨0, 5⟩, ⟨7, 9⟩, ⟨14, 16⟩] := by
  intro a b
  have spansA : blankLineSpans a = [] := by rw [blankLineRuns]; decide +kernel
  have spansB : blankLineSpans b = [⟨2, 7⟩] := by rw [blankLineRuns]; decide +kernel
  have piecesA : paragraphs a = [⟨0, 5⟩] := by rw [paragraphsGaps, spansA]; decide +kernel
  have piecesB : paragraphs b = [⟨0, 2⟩, ⟨7, 9⟩] := by rw [paragraphsGaps, spansB]; decide +kernel
  have block := ((paragraphsByLines.1 b).2.1 ⟨2, 7⟩).mp (by rw [spansB]; decide)
  have last : ∃ l, a.lines.getLast? = some l ∧ ¬ Bare l :=
    ⟨" x".toList, by decide +kernel, by decide +kernel⟩
  have first : ∃ l, b.lines.head? = some l ∧ ¬ Bare l :=
    ⟨"y\t".toList, by decide +kernel, by decide +kernel⟩
  have both := paragraphsByLines.2 a b last first
  rw [piecesA, piecesB] at both
  exact ⟨block, last, first, both⟩

end Intake.Boundary
