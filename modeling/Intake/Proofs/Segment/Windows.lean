import Intake.Proofs.Segment.Blocks
import Intake.Proofs.Text.Joined
import Intake.Proofs.Text.Layout

/-! Windows of lines. A block of lines is cut behind the blank lines it opens with; what is cut
is the text of its other lines, and where the blocks of a text are cut, only blanks are left. -/
namespace Intake.Window
open Text (Blank Laid OneLine ended joinLines)

/- Lines as they stand in a text, the first at a given position. -/
def linesFrom (start : Nat) (ls : List Text) : List Line :=
  List.zipWith Line.mk ls (Text.lineSpans start ls)

@[simp] theorem linesFromNil (start : Nat) : linesFrom start [] = [] := rfl

@[simp] theorem linesFromCons (start : Nat) (l : Text) (ls : List Text) :
    linesFrom start (l :: ls) =
      ⟨l, ⟨start, start + Text.size l⟩⟩ :: linesFrom (start + Text.size l + 1) ls := rfl

theorem linesFromLength (start : Nat) (ls : List Text) : (linesFrom start ls).length = ls.length := by
  simp [linesFrom, Text.lineSpansLength]

theorem linesFromAppend (start : Nat) (a b : List Text) :
    linesFrom start (a ++ b) = linesFrom start a ++ linesFrom (start + Text.size (ended a)) b := by
  rw [linesFrom, Text.lineSpansAppend, List.zipWith_append (Text.lineSpansLength start a).symm]
  rfl

/- The last of consecutive lines ends where their joined text does. -/
theorem linesFromStop (start : Nat) (l : Text) (ls : List Text) :
    ((linesFrom (start + Text.size l + 1) ls).getLast?.getD ⟨l, ⟨start, start + Text.size l⟩⟩).span.stop =
      start + Text.size (joinLines (l :: ls)) := by
  induction ls generalizing start l with
  | nil => rfl
  | cons k ls ih =>
    have newline : ('\n').utf8Size = 1 := rfl
    rw [linesFromCons, List.getLast?_cons, Option.getD_some, ih, Text.joinLinesCons l (by simp),
      Text.sizeAppend, Text.sizeCons, newline]
    omega

/- Blank lines at the front are passed over. -/
theorem blankDropped (start : Nat) {lead : List Text} (blank : ∀ l ∈ lead, Blank l)
    (rest : List Line) :
    (linesFrom start lead ++ rest).dropWhile (fun l => decide l.text.Blank) =
      rest.dropWhile (fun l => decide l.text.Blank) := by
  induction lead generalizing start with
  | nil => rfl
  | cons l lead ih =>
    have first : Blank l := blank l List.mem_cons_self
    rw [linesFromCons, List.cons_append, List.dropWhile_cons_of_pos (by simpa using first)]
    exact ih _ (fun k hk => blank k (List.mem_cons_of_mem _ hk))

theorem cutBlank {start : Nat} {ls : List Text} (blank : ∀ l ∈ ls, Blank l) :
    cut? (linesFrom start ls) = none := by
  have dropped := blankDropped start blank []
  rw [List.append_nil, List.dropWhile_nil] at dropped
  unfold cut?
  rw [dropped]

/- A block of lines is cut behind the blank ones that it opens with. -/
theorem cutLines {start : Nat} {lead : List Text} {first : Text} {more : List Text}
    (blank : ∀ l ∈ lead, Blank l) (visible : ¬ Blank first) :
    cut? (linesFrom start (lead ++ first :: more)) =
      some ⟨⟨start + Text.size (ended lead),
        start + Text.size (ended lead) + Text.size (joinLines (first :: more))⟩, more.length + 1⟩ := by
  have dropped := blankDropped start blank
    (linesFrom (start + Text.size (ended lead)) (first :: more))
  rw [linesFromCons, List.dropWhile_cons_of_neg (by simpa using visible)] at dropped
  unfold cut?
  rw [linesFromAppend, linesFromCons, dropped]
  simp only [linesFromLength, linesFromStop]

/- The first block of lines, and the blocks of the lines behind it. -/
theorem blocksLines (window start : Nat) {ls : List Text} (some : ls ≠ []) :
    blocksOf window (linesFrom start ls) =
      linesFrom start (ls.take (max window 1)) ::
        blocksOf window (linesFrom (start + Text.size (ended (ls.take (max window 1))))
          (ls.drop (max window 1))) := by
  have parts := linesFromAppend start (ls.take (max window 1)) (ls.drop (max window 1))
  rw [List.take_append_drop] at parts
  have length := linesFromLength start (ls.take (max window 1))
  rw [List.length_take] at length
  have lines : linesFrom start ls ≠ [] := fun none => some (by
    have := linesFromLength start ls
    rw [none] at this; exact List.length_eq_zero_iff.1 this.symm)
  rw [blocksOf, if_neg lines]
  rcases Nat.le_total (max window 1) ls.length with enough | short
  · rw [Nat.min_eq_left enough] at length
    rw [parts, List.take_left' length, List.drop_left' length]
  · rw [List.drop_of_length_le short] at parts ⊢
    rw [linesFromNil, List.append_nil] at parts
    rw [← parts, linesFromNil, List.take_of_length_le, List.drop_of_length_le]
    all_goals rw [linesFromLength]; exact short

/- Lines in two parts are joined by a newline, or by nothing when there is no second part. -/
theorem joinedParts (a b : List Text) :
    ∃ seam, Blank seam ∧ joinLines (a ++ b) = joinLines a ++ seam ++ joinLines b ∧
      (a ≠ [] → b ≠ [] → ended a = joinLines a ++ seam) := by
  by_cases hb : b = []
  · subst hb
    exact ⟨[], by simp [Blank], by simp [joinLines], fun _ h => absurd rfl h⟩
  by_cases ha : a = []
  · subst ha
    exact ⟨[], by simp [Blank], by simp [joinLines], fun h => absurd rfl h⟩
  · exact ⟨['\n'], Text.blankNewline, by rw [Text.joinLinesAppend a hb, Text.joinLinesEnded ha],
      fun _ _ => Text.joinLinesEnded ha⟩

/- Between the cuts of consecutive blocks, and behind blanks that are pending, only blanks lie; and
each cut opens with a line that is not blank. -/
theorem cutsLaid (window : Nat) (before pending : Text) (start : Nat) {ls : List Text}
    (clean : ∀ l ∈ ls, OneLine l) (blank : Blank pending)
    (reached : ls ≠ [] → start = Text.size (before ++ pending)) :
    Laid Blank (fun u => ¬ Blank (Text.firstLine u)) (Text.size before) (pending ++ joinLines ls)
      (((blocksOf window (linesFrom start ls)).filterMap cut?).map (·.span)) := by
  induction ls using blocksOf.induct window generalizing before pending start with
  | case1 =>
    simp only [linesFromNil, blocksNil, List.filterMap_nil, List.map_nil]
    exact .done (Text.blankAppend.2 ⟨blank, by simp [joinLines, Blank]⟩)
  | case2 ls some ih =>
    rw [blocksLines window start some]
    have full : ls.take (max window 1) ≠ [] := by
      intro none
      rcases List.take_eq_nil_iff.1 none with zero | none
      · omega
      · exact some none
    obtain ⟨seam, blankSeam, joined, ends⟩ :=
      joinedParts (ls.take (max window 1)) (ls.drop (max window 1))
    rw [List.take_append_drop] at joined
    have cleanBlock : ∀ l ∈ ls.take (max window 1), OneLine l :=
      fun l hl => clean l (List.mem_of_mem_take hl)
    have onward := fun before pending start => ih before pending start
      (fun l hl => clean l (List.mem_of_mem_drop hl))
    generalize ls.take (max window 1) = block at *
    generalize ls.drop (max window 1) = rest at *
    have at_ := reached some
    rcases Text.allOrFirst (p := Blank) block with allBlank | ⟨lead, first, more, rfl, blankLead, visible⟩
    · rw [List.filterMap_cons_none (cutBlank allBlank)]
      have next := onward before (pending ++ (joinLines block ++ seam)) (start + Text.size (ended block))
        (Text.blankAppend.2 ⟨blank, Text.blankAppend.2 ⟨Text.blankJoinLines.2 allBlank, blankSeam⟩⟩)
        (fun more => by rw [ends full more, at_]; simp only [Text.sizeAppend]; omega)
      simpa [joined] using next
    · rw [List.filterMap_cons_some (cutLines blankLead visible), List.map_cons]
      have parts := Text.joinLinesAppend lead (b := first :: more) (by simp)
      have next := onward (before ++ pending ++ joinLines (lead ++ first :: more)) seam
        (start + Text.size (ended (lead ++ first :: more))) blankSeam
        (fun more => by rw [ends full more, at_]; simp only [Text.sizeAppend]; omega)
      have shown : ¬ Blank (Text.firstLine (joinLines (first :: more))) := by
        rwa [Text.firstJoined (cleanBlock first (by simp))]
      refine .span (pending ++ ended lead) (joinLines (first :: more)) (seam ++ joinLines rest)
        (by simp [joined, parts])
        (Text.blankAppend.2 ⟨blank, Text.blankEnded.2 blankLead⟩) shown
        (by rw [at_]; simp only [Text.sizeAppend]; omega) rfl ?_
      have stop : start + Text.size (ended lead) + Text.size (joinLines (first :: more)) =
          Text.size (before ++ pending ++ joinLines (lead ++ first :: more)) := by
        rw [at_, parts]; simp only [Text.sizeAppend]; omega
      rw [stop]
      exact next

theorem windowsOpened (window : Nat) (t : Text) :
    Laid Blank (fun u => ¬ Blank (Text.firstLine u)) 0 t ((cuts window t).map (·.span)) := by
  have laid : Laid Blank (fun u => ¬ Blank (Text.firstLine u)) 0 ([] ++ joinLines t.lines)
      ((cuts window t).map (·.span)) :=
    cutsLaid window [] [] 0 (fun _ => Text.linesClean) (by simp [Blank]) (fun _ => rfl)
  rwa [List.nil_append, Text.joinLinesLines] at laid

theorem windowsLaid (window : Nat) (t : Text) :
    Laid Blank (fun u => ¬ Blank u) 0 t ((cuts window t).map (·.span)) :=
  (windowsOpened window t).imp (fun _ h => h) fun _ visible blank =>
    visible fun c hc => blank c ((List.takeWhile_prefix _).subset hc)

theorem chunkAt (window : Nat) (t : Text) (i : Nat) :
    (chunks window t)[i]? = ((cuts window t)[i]?).map (fun c => c.chunk i (t.slice c.span)) := by
  rw [chunksSlice, List.getElem?_mapIdx]

/- A chunk is what the text has at one of the cuts. -/
theorem chunkCut {window : Nat} {t : Text} {c : Chunk} (member : c ∈ chunks window t) :
    ∃ i, ∃ cut ∈ cuts window t, c = cut.chunk i (t.slice cut.span) := by
  rw [chunksSlice] at member
  obtain ⟨i, bound, rfl⟩ := List.mem_mapIdx.1 member
  exact ⟨i, _, List.getElem_mem bound, rfl⟩

theorem chunkOpened {window : Nat} {t : Text} {c : Chunk} (member : c ∈ chunks window t) :
    ¬ Blank c.firstLine := by
  obtain ⟨i, cut, hc, rfl⟩ := chunkCut member
  exact ((windowsOpened window t).each _ (List.mem_map.2 ⟨cut, hc, rfl⟩)).2

end Intake.Window
