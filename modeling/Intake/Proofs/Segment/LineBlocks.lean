import Intake.Proofs.Segment.Windows

/-! Windows as blocks of lines. The lines of a text are counted off in blocks of fixed size. Every block
with a line that is not blank gives one chunk, which holds the lines of the block from the first such
line on, as they stand in the text; and where no block opens with a blank line, the chunks are all of it. -/
namespace Intake.Window
open Json (Value)
open Text (Blank OneLine ended joinLines)

/- The `k`th block of so many entries; zero acts as one. -/
def block {α : Type} (window : Nat) (xs : List α) (k : Nat) : List α :=
  (xs.drop (k * max window 1)).take (max window 1)

/- Some line is not blank. -/
def Shown (ls : List Text) : Prop := ∃ l ∈ ls, ¬ Blank l

instance : DecidablePred Shown := fun ls => List.decidableBEx (fun l => ¬ Blank l) ls

/- The numbers of the blocks that are to be emitted, in order. -/
def shownBlocks (window : Nat) (ls : List Text) : List Nat :=
  (List.range ls.length).filter (fun k => decide (Shown (block window ls k)))

/- A chunk that was made of block `k`: in front of its first line, which is not blank, the block has
`lead`, and behind it `rest`. -/
structure Emitted (window : Nat) (t : Text) (k sequence : Nat) (lead : List Text) (first : Text)
    (rest : List Text) (c : Chunk) : Prop where
  block : block window t.lines k = lead ++ first :: rest
  blank : ∀ l ∈ lead, Blank l
  visible : ¬ Blank first
  content : c.content = joinLines (first :: rest)
  opens : c.firstLine = first
  length : c.length = c.content.size
  offset : c.offset = Text.size (ended (t.lines.take (k * max window 1) ++ lead))
  stands : ∃ after, t = ended (t.lines.take (k * max window 1) ++ lead) ++ c.content ++ after
  metadata : c.metadata.table.entries = [("line_count", .ofNat (rest.length + 1)),
    ("log_sequence", .ofNat sequence), ("type", .string "log_window")]
  bounded : rest.length + 1 ≤ max window 1
  newlines : rest.length + 1 = c.content.count '\n' + 1

section Blocks
variable {α : Type} (window : Nat)

theorem blockFirst (xs : List α) : block window xs 0 = xs.take (max window 1) := by
  simp [block]

theorem blockNext (xs : List α) (k : Nat) :
    block window xs (k + 1) = block window (xs.drop (max window 1)) k := by
  have further : (k + 1) * max window 1 = max window 1 + k * max window 1 := by
    rw [Nat.succ_mul, Nat.add_comm]
  simp only [block, further, List.drop_drop]

theorem blockEmpty {xs : List α} (k : Nat) (none : xs = []) : block window xs k = [] := by
  simp [block, none]

/- Counting off goes on until nothing is left; blocks with higher numbers are empty. -/
theorem blocksNumbered {xs : List α} {n : Nat} (enough : xs.length ≤ n) :
    blocksOf window xs = ((List.range n).map (block window xs)).filter (fun b => !b.isEmpty) := by
  induction xs using blocksOf.induct window generalizing n with
  | case1 =>
    rw [blocksNil]
    symm
    apply List.filter_eq_nil_iff.mpr
    intro b hb
    obtain ⟨k, -, rfl⟩ := List.mem_map.mp hb
    simp [blockEmpty window k rfl]
  | case2 xs some ih =>
    have positive : 0 < xs.length := List.length_pos_iff.mpr some
    obtain ⟨m, rfl⟩ : ∃ m, n = m + 1 := ⟨n - 1, by omega⟩
    have fewer : (xs.drop (max window 1)).length ≤ m := by
      rw [List.length_drop]; omega
    have full : (xs.take (max window 1)).isEmpty = false := by
      rw [List.isEmpty_eq_false_iff, ← List.length_pos_iff, List.length_take]; omega
    have later : block window xs ∘ Nat.succ = block window (xs.drop (max window 1)) :=
      funext (blockNext window xs)
    rw [blocksOf, if_neg some, ih fewer, List.range_succ_eq_map, List.map_cons, List.map_map, later,
      blockFirst, List.filter_cons_of_pos (by rw [full]; rfl)]

end Blocks

section Positions
variable (start : Nat) (ls : List Text) (n : Nat)

theorem spansTake : (Text.lineSpans start ls).take n = Text.lineSpans start (ls.take n) := by
  induction ls generalizing start n with
  | nil => simp [Text.lineSpans]
  | cons l ls ih =>
    cases n with
    | zero => rfl
    | succ n => simp only [Text.lineSpans, List.take_succ_cons, ih]

theorem spansDrop : (Text.lineSpans start ls).drop n =
    Text.lineSpans (start + Text.size (ended (ls.take n))) (ls.drop n) := by
  induction ls generalizing start n with
  | nil => simp [Text.lineSpans]
  | cons l ls ih =>
    cases n with
    | zero => rfl
    | succ n =>
      have reached : start + Text.size l + 1 + Text.size (ended (ls.take n)) =
          start + Text.size (ended (l :: ls.take n)) := by
        rw [Text.sizeEnded]; omega
      simp only [Text.lineSpans, List.drop_succ_cons, List.take_succ_cons, ih, reached]

end Positions

/- The lines of a block stand behind those of the blocks in front of it. -/
theorem blockStands (window start : Nat) (ls : List Text) (k : Nat) :
    block window (linesFrom start ls) k =
      linesFrom (start + Text.size (ended (ls.take (k * max window 1)))) (block window ls k) := by
  simp only [block, linesFrom, List.drop_zipWith, List.take_zipWith, spansDrop, spansTake]

theorem shownOpens {ls : List Text} (shown : Shown ls) : ∃ lead first rest,
    ls = lead ++ first :: rest ∧ (∀ l ∈ lead, Blank l) ∧ ¬ Blank first := by
  rcases Text.allOrFirst (p := Blank) ls with blank | parts
  · obtain ⟨l, hl, visible⟩ := shown
    exact absurd (blank l hl) visible
  · exact parts

/- Where a block is cut, if it is emitted at all. -/
def cutAt (window : Nat) (ls : List Text) (k : Nat) : Option Cut :=
  cut? (linesFrom (Text.size (ended (ls.take (k * max window 1)))) (block window ls k))

theorem cutShown (window : Nat) (ls : List Text) (k : Nat) :
    (cutAt window ls k).isSome = decide (Shown (block window ls k)) := by
  by_cases shown : Shown (block window ls k)
  · obtain ⟨lead, first, rest, whole, blank, visible⟩ := shownOpens shown
    rw [decide_eq_true shown, cutAt, whole, cutLines blank visible]
    rfl
  · have blank : ∀ l ∈ block window ls k, Blank l := fun l hl =>
      Classical.byContradiction fun visible => shown ⟨l, hl, visible⟩
    rw [decide_eq_false shown, cutAt, cutBlank blank]
    rfl

/- What is made of some entries, entry by entry. -/
theorem filterMapKept {α β : Type} {f : α → Option β} {p : α → Bool} (kept : ∀ x, (f x).isSome = p x)
    (xs : List α) : (xs.filterMap f).map some = (xs.filter p).map f := by
  induction xs with
  | nil => rfl
  | cons x xs ih =>
    have here := kept x
    cases made : f x with
    | none =>
      have dropped : ¬ p x = true := by rw [← here, made]; exact Bool.false_ne_true
      rw [List.filterMap_cons_none made, List.filter_cons_of_neg dropped, ih]
    | some y =>
      have taken : p x = true := by rw [← here, made]; rfl
      rw [List.filterMap_cons_some made, List.filter_cons_of_pos taken, List.map_cons, List.map_cons,
        ih, made]

theorem cutsShown (window : Nat) (t : Text) :
    (cuts window t).map some = (shownBlocks window t.lines).map (cutAt window t.lines) := by
  have lines : (linesOf t).length ≤ t.lines.length := Nat.le_of_eq (linesFromLength 0 t.lines)
  have each : cut? ∘ block window (linesOf t) = cutAt window t.lines := by
    funext k
    have stands := blockStands window 0 t.lines k
    rw [Nat.zero_add] at stands
    exact congrArg cut? stands
  have blocks : cuts window t = (List.range t.lines.length).filterMap (cutAt window t.lines) := by
    have skipped : ∀ bs : List (List Line), (bs.filter (fun b => !b.isEmpty)).filterMap cut? =
        bs.filterMap cut? := by
      intro bs
      induction bs with
      | nil => rfl
      | cons b bs ih =>
        cases b with
        | nil => exact ih
        | cons l b => simp only [List.filter, List.isEmpty_cons, Bool.not_false, List.filterMap_cons, ih]
    rw [cuts, blocksNumbered window lines, skipped, List.filterMap_map, each]
  rw [blocks]
  exact filterMapKept (cutShown window t.lines) _

/- Lines in the midst of others stand in the text of all behind the ends of those in front. -/
theorem linesWithin (front : List Text) {ls : List Text} (some : ls ≠ []) (back : List Text) :
    ∃ after, joinLines (front ++ ls ++ back) = ended front ++ joinLines ls ++ after := by
  obtain ⟨seam, -, joined, -⟩ := joinedParts (front ++ ls) back
  exact ⟨seam ++ joinLines back, by rw [joined, Text.joinLinesAppend front some, List.append_assoc]⟩

theorem newlinesJoined {l : Text} {ls : List Text} (clean : ∀ k ∈ l :: ls, OneLine k) :
    (joinLines (l :: ls)).count '\n' = ls.length := by
  have none : ∀ k : Text, OneLine k → k.count '\n' = 0 := fun k oneLine =>
    List.count_eq_zero.mpr fun member => by cases oneLine '\n' member
  induction ls generalizing l with
  | nil => exact none l (clean l List.mem_cons_self)
  | cons k ls ih =>
    have later := @ih k fun j hj => clean j (List.mem_cons_of_mem l hj)
    rw [Text.joinLinesCons l (List.cons_ne_nil k ls), List.count_append, List.count_cons_self, later,
      none l (clean l List.mem_cons_self), Nat.zero_add, List.length_cons]

theorem blockClean {window : Nat} {t : Text} {k : Nat} : ∀ l ∈ block window t.lines k, OneLine l :=
  fun _ hl => Text.linesClean (List.mem_of_mem_drop (List.mem_of_mem_take hl))

/- What is emitted of a block that has a line that is not blank. -/
theorem emittedCut {window : Nat} {t : Text} {k : Nat} {cut : Cut}
    (here : cutAt window t.lines k = some cut) (sequence : Nat) : ∃ lead first rest,
      Emitted window t k sequence lead first rest (cut.chunk sequence (t.slice cut.span)) := by
  have shown : Shown (block window t.lines k) := by
    have kept := cutShown window t.lines k
    rw [here] at kept
    exact of_decide_eq_true kept.symm
  obtain ⟨lead, first, rest, whole, blank, visible⟩ := shownOpens shown
  have clean : ∀ l ∈ first :: rest, OneLine l := fun l hl =>
    blockClean l (by rw [whole]; exact List.mem_append_right lead hl)
  have cutHere := here
  rw [cutAt, whole, cutLines blank visible] at cutHere
  generalize front : t.lines.take (k * max window 1) = before at cutHere
  have parts : t.lines = before ++ lead ++ (first :: rest) ++
      (t.lines.drop (k * max window 1)).drop (max window 1) := by
    rw [List.append_assoc before, ← whole, ← front, List.append_assoc]
    rw [block, List.take_append_drop, List.take_append_drop]
  obtain ⟨after, stands⟩ := linesWithin (before ++ lead) (List.cons_ne_nil first rest)
    ((t.lines.drop (k * max window 1)).drop (max window 1))
  rw [← parts, Text.joinLinesLines] at stands
  have position : Text.size (ended before) + Text.size (ended lead) =
      Text.size (ended (before ++ lead)) := by
    simp [ended]
  obtain rfl := Option.some.inj cutHere
  rw [position]
  have content : t.slice ⟨Text.size (ended (before ++ lead)),
      Text.size (ended (before ++ lead)) + Text.size (joinLines (first :: rest))⟩ =
        joinLines (first :: rest) := Text.sliceWithin stands rfl rfl
  have bounded := congrArg List.length whole
  simp only [block, List.length_take, List.length_append, List.length_cons] at bounded
  refine ⟨lead, first, rest, ?_⟩
  exact {
    block := whole
    blank := blank
    visible := visible
    content := content
    opens := by
      rw [Chunk.firstLine, Cut.chunk, Chunk.of, content]
      exact Text.firstJoined (clean first List.mem_cons_self)
    length := rfl
    offset := by rw [front]; rfl
    stands := ⟨after, by rw [front, Cut.chunk, Chunk.of, content]; exact stands⟩
    metadata := rfl
    bounded := by omega
    newlines := by rw [Cut.chunk, Chunk.of, content, newlinesJoined clean] }

theorem chunksEmitted (window : Nat) (t : Text) {i k : Nat}
    (shown : (shownBlocks window t.lines)[i]? = some k) : ∃ c lead first rest,
      (chunks window t)[i]? = some c ∧ Emitted window t k i lead first rest c := by
  have at_ := congrArg (·[i]?) (cutsShown window t)
  simp only [List.getElem?_map, shown, Option.map_some] at at_
  obtain ⟨cut, found, made⟩ := Option.map_eq_some_iff.mp at_
  obtain ⟨lead, first, rest, emitted⟩ := emittedCut made.symm i
  have here : (chunks window t)[i]? = some (cut.chunk i (t.slice cut.span)) := by
    rw [chunkAt, found, Option.map_some]
  exact ⟨_, lead, first, rest, here, emitted⟩

theorem chunksCounted (window : Nat) (t : Text) :
    (chunks window t).length = (shownBlocks window t.lines).length := by
  have counted := congrArg List.length (cutsShown window t)
  rw [List.length_map, List.length_map] at counted
  rw [chunksSlice, List.length_mapIdx, counted]

/- Lines joined block by block are joined. -/
theorem joinedBlocks {bs : List (List Text)} (some : ∀ b ∈ bs, b ≠ []) :
    joinLines (bs.map joinLines) = joinLines bs.flatten := by
  induction bs with
  | nil => rfl
  | cons b bs ih =>
    have here := some b List.mem_cons_self
    have later := ih fun c hc => some c (List.mem_cons_of_mem b hc)
    cases bs with
    | nil => simp [joinLines]
    | cons c bs =>
      have more : (c :: bs).flatten ≠ [] := by
        have next := some c (by simp)
        simp [next]
      have parts : (b :: c :: bs).flatten = b ++ (c :: bs).flatten := rfl
      rw [List.map_cons, Text.joinLinesCons _ (by simp), later, parts,
        Text.joinLinesAppend b more, Text.joinLinesEnded here, List.append_assoc, List.singleton_append]

/- Where no block opens with a blank line, every block is emitted as a whole. -/
theorem contentsWhole {window : Nat} {t : Text}
    (opened : ∀ k l rest, block window t.lines k = l :: rest → ¬ Blank l) :
    (chunks window t).map (·.content) = (blocksOf window t.lines).map joinLines := by
  have whole : blocksOf window t.lines = (shownBlocks window t.lines).map (block window t.lines) := by
    have same : ∀ k, decide (Shown (block window t.lines k)) = !(block window t.lines k).isEmpty := by
      intro k
      cases here : block window t.lines k with
      | nil => simp [Shown]
      | cons l rest =>
        have shown : Shown (l :: rest) := ⟨l, List.mem_cons_self, opened k l rest here⟩
        rw [decide_eq_true shown]
        rfl
    rw [blocksNumbered window (Nat.le_refl _), List.filter_map, shownBlocks]
    exact congrArg (List.map _) (List.filter_congr fun k _ => (same k).symm)
  rw [whole, List.map_map]
  apply List.ext_getElem?
  intro i
  rw [List.getElem?_map, List.getElem?_map]
  cases shown : (shownBlocks window t.lines)[i]? with
  | none =>
    have beyond := List.getElem?_eq_none_iff.mp shown
    rw [← chunksCounted] at beyond
    rw [List.getElem?_eq_none_iff.mpr beyond]
    rfl
  | some k =>
    obtain ⟨c, lead, first, rest, found, emitted⟩ := chunksEmitted window t shown
    have none : lead = [] := by
      cases lead with
      | nil => rfl
      | cons l lead =>
        exact absurd (emitted.blank l List.mem_cons_self) (opened k l _ emitted.block)
    rw [found, Option.map_some, Option.map_some, emitted.content, Function.comp_apply, emitted.block,
      none, List.nil_append]

/- One chunk for each block that is not blank, in order; and all of the text where every block opens with
a line that is not blank. -/
theorem windowsByBlocks (window : Nat) (t : Text) :
    (chunks window t).length = (shownBlocks window t.lines).length ∧
    (∀ i k, (shownBlocks window t.lines)[i]? = some k → ∃ c lead first rest,
      (chunks window t)[i]? = some c ∧ Emitted window t k i lead first rest c) ∧
    ((∀ k l rest, block window t.lines k = l :: rest → ¬ Blank l) →
      joinLines ((chunks window t).map (·.content)) = t) := by
  have some : ∀ b ∈ blocksOf window t.lines, b ≠ [] := by
    intro b hb
    rw [blocksNumbered window (Nat.le_refl _)] at hb
    have full := (List.mem_filter.mp hb).2
    intro none
    rw [none] at full
    cases full
  have all := blocksFlatten window t.lines
  constructor
  · exact chunksCounted window t
  · constructor
    · exact fun i k shown => chunksEmitted window t shown
    · intro opened
      rw [contentsWhole opened, joinedBlocks some, all, Text.joinLinesLines]

/- Of four blocks the second is blank, and the third opens with a blank line. -/
theorem blankBlockPassedOver :
    let t : Text := "a\nb\n\n \n\n\u00e7 d\ne".toList
    let u : Text := "a\n\n  b\nc".toList
    (shownBlocks 2 t.lines)[1]? = some 2 ∧
    (∃ c lead first rest, (chunks 2 t)[1]? = some c ∧ Emitted 2 t 2 1 lead first rest c) ∧
    (∀ k l rest, block 2 u.lines k = l :: rest → ¬ Blank l) ∧
    joinLines ((chunks 2 u).map (·.content)) = u := by
  intro t u
  have third : (shownBlocks 2 t.lines)[1]? = some 2 := by decide +kernel
  have opened : ∀ k l rest, block 2 u.lines k = l :: rest → ¬ Blank l := by
    have first : block 2 u.lines 0 = ["a".toList, []] := by decide +kernel
    have second : block 2 u.lines 1 = ["  b".toList, "c".toList] := by decide +kernel
    intro k l rest here
    match k with
    | 0 =>
      cases first.symm.trans here
      decide
    | 1 =>
      cases second.symm.trans here
      decide
    | k + 2 =>
      have none : block 2 u.lines (k + 2) = [] := by
        rw [blockNext, blockNext]
        exact blockEmpty 2 k (by decide +kernel)
      rw [none] at here
      cases here
  exact ⟨third, (windowsByBlocks 2 t).2.1 1 2 third, opened, (windowsByBlocks 2 u).2.2 opened⟩

end Intake.Window
