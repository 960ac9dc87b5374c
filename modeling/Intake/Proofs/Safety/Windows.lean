import Intake.Proofs.Safety.Checked
import Intake.Proofs.Segment.Windows

/-! Windows, checked. Line by line the positions are added up; each line of a block is a slice until
one is not blank, and from there to the end of its last line the block is cut. In a text that can
be held all of this is defined. -/
namespace Intake.Window
open Checked (slice entry tail sum difference sliceOk entryOk tailOk sumOk differenceOk mapOk okBind
  wordOfSize)
open Text (Blank Laid ended joinLines)

def checkedSpans (start : Nat) : List Text → Checked (List Span)
  | [] => .ok []
  | l :: rest => do
    let stop ← sum start l.size
    let next ← sum start (← sum l.size 1)
    let later ← checkedSpans next rest
    .ok (⟨start, stop⟩ :: later)

def checkedBlocks (n : Nat) (spans : List Span) : Checked (List (List Span)) :=
  if n = 0 then .error .zero else .ok (blocksOf n spans)

/- The position of the first line that is not blank. -/
def checkedLead (t : Text) : List Span → Checked (Option Nat)
  | [] => .ok none
  | s :: rest => do
    let line ← slice t s
    if Blank line then
      let later ← checkedLead t rest
      .ok (later.map (· + 1))
    else .ok (some 0)

def checkedCut (t : Text) (block : List Span) : Checked (Option (Cut × Text)) := do
  match ← checkedLead t block with
  | none => .ok none
  | some lead =>
    let lines ← tail block lead
    let first ← entry lines 0
    let last ← entry lines (← difference lines.length 1)
    let content ← slice t ⟨first.start, last.stop⟩
    .ok (some (⟨⟨first.start, last.stop⟩, lines.length⟩, content))

def checkedChunks (window : Nat) (t : Text) : Checked (List Chunk) :=
  if t.isEmpty then .ok []
  else do
    let spans ← checkedSpans 0 t.lines
    let blocks ← checkedBlocks (max window 1) spans
    let cuts ← blocks.mapM (checkedCut t)
    .ok ((cuts.filterMap id).mapIdx (fun i c => c.1.chunk i c.2))

theorem spansSafe {start : Nat} {ls : List Text} (fits : start + Text.size (ended ls) < UInt64.size) :
    checkedSpans start ls = .ok (Text.lineSpans start ls) := by
  induction ls generalizing start with
  | nil => rfl
  | cons l ls ih =>
    have newline : ('\n').utf8Size = 1 := rfl
    rw [Text.endedCons, Text.sizeAppend, Text.sizeCons, newline] at fits
    have stop : start + Text.size l < UInt64.size := by omega
    have one : Text.size l + 1 < UInt64.size := by omega
    have next : start + (Text.size l + 1) < UInt64.size := by omega
    have later : start + (Text.size l + 1) + Text.size (ended ls) < UInt64.size := by omega
    simp only [checkedSpans, sumOk stop, sumOk one, sumOk next, okBind, ih later]
    rfl

theorem spansOfLines (start : Nat) (ls : List Text) :
    (linesFrom start ls).map Line.span = Text.lineSpans start ls := by
  induction ls generalizing start with
  | nil => rfl
  | cons l ls ih => rw [linesFromCons, List.map_cons, ih]; rfl

/- A line that stands in a text where it says. -/
def Line.Stands (t : Text) (l : Line) : Prop := t.Within l.span ∧ t.slice l.span = l.text

theorem linesStand {t : Text} (before : Text) {ls : List Text}
    (whole : ls ≠ [] → t = before ++ joinLines ls) :
    ∀ l ∈ linesFrom (Text.size before) ls, l.Stands t := by
  induction ls generalizing before with
  | nil => exact fun l hl => absurd hl List.not_mem_nil
  | cons line ls ih =>
    have here := whole (List.cons_ne_nil _ _)
    have stands : ∀ after, t = before ++ line ++ after →
        Line.Stands t ⟨line, ⟨Text.size before, Text.size before + Text.size line⟩⟩ := fun after cut =>
      ⟨⟨_, _, _, cut, rfl, rfl⟩, Text.sliceWithin cut rfl rfl⟩
    intro l hl
    rcases List.mem_cons.1 hl with rfl | hl
    · by_cases more : ls = []
      · subst more
        exact stands [] (by simpa [joinLines] using here)
      · rw [Text.joinLinesCons line more] at here
        exact stands _ (by rw [here, List.append_assoc])
    · have next := ih (before ++ line ++ ['\n']) fun more => by
        rw [here, Text.joinLinesCons line more]; simp
      have reached : Text.size (before ++ line ++ ['\n']) =
          Text.size before + Text.size line + 1 := by
        rw [Text.sizeAppend, Text.sizeAppend]; rfl
      rw [reached] at next
      exact next l hl

/- Either all lines of a block are blank, or the first that is not is where the cut begins. -/
theorem leadSafe {t : Text} {block : List Line} (stand : ∀ l ∈ block, l.Stands t) :
    (checkedLead t (block.map Line.span) = .ok none ∧
      block.dropWhile (fun l => decide l.text.Blank) = []) ∨
    ∃ lead first rest, checkedLead t (block.map Line.span) = .ok (some lead) ∧
      lead ≤ block.length ∧ block.drop lead = first :: rest ∧
      block.dropWhile (fun l => decide l.text.Blank) = first :: rest := by
  induction block with
  | nil => exact .inl ⟨rfl, rfl⟩
  | cons l block ih =>
    obtain ⟨within, same⟩ := stand l List.mem_cons_self
    simp only [List.map_cons, checkedLead, sliceOk within, same, okBind]
    by_cases blank : l.text.Blank
    · rw [if_pos blank, List.dropWhile_cons_of_pos (by simpa using blank)]
      rcases ih fun k hk => stand k (List.mem_cons_of_mem _ hk) with
        ⟨none, all⟩ | ⟨lead, first, rest, found, inside, dropped, visible⟩
      · exact .inl ⟨by rw [none]; rfl, all⟩
      · exact .inr ⟨lead + 1, first, rest, by rw [found]; rfl, Nat.succ_le_succ inside, dropped, visible⟩
    · rw [if_neg blank, List.dropWhile_cons_of_neg (by simpa using blank)]
      exact .inr ⟨0, l, block, rfl, Nat.zero_le _, rfl, rfl⟩

theorem cutSafe {t : Text} {block : List Line} (stand : ∀ l ∈ block, l.Stands t)
    (within : ∀ c ∈ cut? block, t.Within c.span) :
    checkedCut t (block.map Line.span) = .ok ((cut? block).map (fun c => (c, t.slice c.span))) := by
  rcases leadSafe stand with ⟨none, all⟩ | ⟨lead, first, rest, found, inside, dropped, visible⟩
  · simp only [checkedCut, none, okBind, cut?, all]
    rfl
  · have cut : cut? block = some ⟨⟨first.span.start, (rest.getLast?.getD first).span.stop⟩,
        rest.length + 1⟩ := by rw [cut?, visible]
    have spans : (block.map Line.span).drop lead = first.span :: rest.map Line.span := by
      rw [← List.map_drop, dropped, List.map_cons]
    have last : (first.span :: rest.map Line.span)[rest.length]? =
        some (rest.getLast?.getD first).span := by
      have lengths : rest.length = (first :: rest).length - 1 := rfl
      rw [← List.map_cons, List.getElem?_map, lengths, ← List.getLast?_eq_getElem?,
        List.getLast?_cons, Option.map_some]
    have bound : lead ≤ (block.map Line.span).length := by rwa [List.length_map]
    have slices : t.Within ⟨first.span.start, (rest.getLast?.getD first).span.stop⟩ := within _ cut
    simp only [checkedCut, found, okBind, tailOk bound, spans, entryOk (List.getElem?_cons_zero),
      List.length_cons, List.length_map, differenceOk (Nat.le_add_left 1 rest.length),
      Nat.add_sub_cancel, entryOk last, sliceOk slices, cut, Option.map_some]

theorem blocksMax {α : Type} (n : Nat) (xs : List α) : blocksOf (max n 1) xs = blocksOf n xs := by
  have one : max (max n 1) 1 = max n 1 := Nat.max_eq_left (Nat.le_max_right n 1)
  fun_induction blocksOf n xs with
  | case1 => rw [blocksNil]
  | case2 xs some ih => rw [blocksOf, if_neg some, one, ih]

/- Block by block, as the lines of each stand in the text and so do the cuts. -/
theorem cutsSafe (window : Nat) (t : Text) :
    ((blocksOf window (linesOf t)).map (List.map Line.span)).mapM (checkedCut t) =
      .ok ((blocksOf window (linesOf t)).map fun block =>
        (cut? block).map fun c => (c, t.slice c.span)) := by
  have laid := windowsLaid window t
  have stand : ∀ l ∈ linesOf t, l.Stands t := linesStand [] fun _ => (Text.joinLinesLines t).symm
  rw [List.mapM_map]
  refine mapOk fun block member => cutSafe (fun l hl => stand l ?_) fun c hc => ?_
  · rw [← blocksFlatten window (linesOf t)]
    exact List.mem_flatten.2 ⟨block, member, hl⟩
  · have cut : c ∈ cuts window t := List.mem_filterMap.2 ⟨block, member, hc⟩
    exact (laid.each c.span (List.mem_map.2 ⟨c, cut, rfl⟩)).1

/- Cuts that come with their slices are numbered like the cuts alone. -/
theorem chunksNumbered (window : Nat) (t : Text) :
    (((blocksOf window (linesOf t)).map fun block =>
      (cut? block).map fun c => (c, t.slice c.span)).filterMap id).mapIdx (fun i c => c.1.chunk i c.2) =
        (cuts window t).mapIdx fun i c => c.chunk i (t.slice c.span) := by
  have kept : ((blocksOf window (linesOf t)).map fun block =>
      (cut? block).map fun c => (c, t.slice c.span)).filterMap id =
        (cuts window t).map fun c => (c, t.slice c.span) := by
    rw [List.filterMap_map, cuts, List.map_filterMap]
    rfl
  refine List.ext_getElem? fun i => ?_
  simp only [kept, List.getElem?_mapIdx, List.getElem?_map, Option.map_map]
  rfl

/- In a text that can be held, whatever the size of a window, all is defined. -/
theorem chunksSafe (window : Nat) {t : Text} (held : t.size ≤ Text.longest) :
    checkedChunks window t = .ok (chunks window t) := by
  rw [chunksSlice]
  by_cases empty : t = []
  · subst empty
    have none := Text.laidEmpty (windowsLaid window []) (by simp [Blank])
    rw [List.map_eq_nil_iff.1 none]
    rfl
  · have joined := Text.joinLinesEnded (Text.linesNonempty t)
    rw [Text.joinLinesLines] at joined
    have fits : 0 + Text.size (ended t.lines) < UInt64.size := by
      rw [joined, Text.sizeAppend]
      exact wordOfSize held (by have newline : Text.size ['\n'] = 1 := rfl; omega)
    have spans : Text.lineSpans 0 t.lines = (linesOf t).map Line.span :=
      (spansOfLines 0 t.lines).symm
    have positive : max window 1 ≠ 0 := by omega
    have some : ¬ t.isEmpty = true := by rwa [List.isEmpty_iff]
    simp only [checkedChunks, if_neg some, spansSafe fits, okBind, checkedBlocks, if_neg positive,
      spans, blocksMap, blocksMax, cutsSafe, chunksNumbered]

end Intake.Window
