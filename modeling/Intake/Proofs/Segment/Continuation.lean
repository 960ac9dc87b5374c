import Intake.Proofs.Segment.Windows

/-! Windows of a text that goes on. Where the lines of a text fill its blocks, lines behind them are
counted off as if they stood alone; so the windows of the text stay as they are, and those of what is
appended follow, further on in the text and in the numbering. -/
namespace Intake

/- A number under a key raised by so much. -/
def Metadata.raise (m : Metadata) (key : String) (n : Nat) : Metadata :=
  match m.get? key with
  | some (.int k) => m.set key (.int (k + n))
  | _ => m

/- A log window so many bytes further on, and so many windows later in the sequence. -/
def Chunk.onward (distance later : Nat) (c : Chunk) : Chunk :=
  { c with
    offset := c.offset + distance
    metadata := c.metadata.raise "log_sequence" later }

namespace Window
open Text (ended)

def Line.shift (distance : Nat) (l : Line) : Line := ⟨l.text, l.span.shift distance⟩

def Cut.shift (distance : Nat) (c : Cut) : Cut := ⟨c.span.shift distance, c.lineCount⟩

theorem linesShifted (distance start : Nat) (ls : List Text) :
    linesFrom (start + distance) ls = (linesFrom start ls).map (Line.shift distance) := by
  induction ls generalizing start with
  | nil => rfl
  | cons l ls ih =>
    have stop : start + distance + Text.size l = start + Text.size l + distance := by omega
    have next : start + Text.size l + distance + 1 = start + Text.size l + 1 + distance := by omega
    rw [linesFromCons, linesFromCons, stop, next, ih, List.map_cons]
    rfl

theorem cutShifted (distance : Nat) (block : List Line) :
    cut? (block.map (Line.shift distance)) = (cut? block).map (Cut.shift distance) := by
  have dropped : (block.map (Line.shift distance)).dropWhile (fun l => decide l.text.Blank) =
      (block.dropWhile (fun l => decide l.text.Blank)).map (Line.shift distance) :=
    List.dropWhile_map
  unfold cut?
  rw [dropped]
  cases block.dropWhile (fun l => decide l.text.Blank) with
  | nil => rfl
  | cons first rest =>
    have last : ((rest.map (Line.shift distance)).getLast?.getD (first.shift distance)).span.stop =
        (rest.getLast?.getD first).span.stop + distance := by
      rw [List.getLast?_map]
      cases rest.getLast? <;> rfl
    simp only [List.map_cons, last, List.length_map]
    rfl

/- The lines of an appended text stand behind those there are. -/
theorem linesAppended (a b : Text) :
    linesOf (a ++ '\n' :: b) = linesOf a ++ (linesOf b).map (Line.shift (a.size + 1)) := by
  have lines : (a ++ '\n' :: b).lines = a.lines ++ b.lines := Text.fieldsAppend a b rfl
  have whole : Text.size (ended a.lines) = a.size + 1 := by
    rw [Text.joinLinesEnded (Text.linesNonempty a), Text.joinLinesLines, Text.sizeAppend]
    rfl
  have parts := linesFromAppend 0 a.lines b.lines
  rw [whole, linesShifted, ← lines] at parts
  exact parts

theorem chunkOnward (c : Cut) (distance later i : Nat) (content : Text) :
    (c.chunk i content).onward distance later = (c.shift distance).chunk (i + later) content := rfl

/- What is cut from a text stays as it is when more follows. -/
theorem chunksFront (window : Nat) (a b : Text) :
    (cuts window a).mapIdx (fun i c => c.chunk i ((a ++ b).slice c.span)) = chunks window a := by
  have content : ∀ c ∈ cuts window a, (a ++ b).slice c.span = a.slice c.span := fun c hc =>
    have within := ((windowsLaid window a).each c.span (List.mem_map.mpr ⟨c, hc, rfl⟩)).1
    (Text.withinFront within b).2
  apply List.ext_getElem?
  intro i
  rw [chunkAt, List.getElem?_mapIdx]
  cases found : (cuts window a)[i]? with
  | none => rfl
  | some c => simp only [Option.map_some, content c (List.mem_of_getElem? found)]

/- What is cut from a text behind another one is what is cut from it alone, further on. -/
theorem chunksBehind (window : Nat) (a b : Text) (later : Nat) :
    ((cuts window b).map (Cut.shift a.size)).mapIdx
        (fun i c => c.chunk (i + later) ((a ++ b).slice c.span)) =
      (chunks window b).map (Chunk.onward a.size later) := by
  have content : ∀ c ∈ cuts window b, (a ++ b).slice (c.span.shift a.size) = b.slice c.span := fun c hc =>
    have within := ((windowsLaid window b).each c.span (List.mem_map.mpr ⟨c, hc, rfl⟩)).1
    (Text.withinBehind a within).2
  apply List.ext_getElem?
  intro i
  rw [List.getElem?_map, chunkAt, List.getElem?_mapIdx, List.getElem?_map]
  cases found : (cuts window b)[i]? with
  | none => rfl
  | some c =>
    simp only [Option.map_some, Cut.shift, content c (List.mem_of_getElem? found), chunkOnward]

section Appended
variable {window : Nat} (positive : 1 ≤ window) {a : Text} (full : window ∣ a.lines.length) (b : Text)
include positive full

theorem cutsAppended :
    cuts window (a ++ '\n' :: b) = cuts window a ++ (cuts window b).map (Cut.shift (a.size + 1)) := by
  have lines : window ∣ (linesOf a).length := by rwa [linesOf, ← linesFrom, linesFromLength]
  have later : cut? ∘ List.map (Line.shift (a.size + 1)) =
      Option.map (Cut.shift (a.size + 1)) ∘ cut? := funext (cutShifted (a.size + 1))
  rw [cuts, linesAppended, blocksAppend positive lines, List.filterMap_append, blocksMap,
    List.filterMap_map, later]
  congr 1
  rw [cuts, List.map_filterMap]
  rfl

/- Lines appended behind full blocks leave the windows before them as they are. -/
theorem windowsContinued : chunks window (a ++ '\n' :: b) =
    chunks window a ++ (chunks window b).map (Chunk.onward (a.size + 1) (chunks window a).length) := by
  have counted : (cuts window a).length = (chunks window a).length := by
    rw [chunksSlice, List.length_mapIdx]
  have size : Text.size (a ++ ['\n']) = a.size + 1 := Text.sizeAppend a ['\n']
  have behind := chunksBehind window (a ++ ['\n']) b (chunks window a).length
  rw [size, List.append_assoc] at behind
  rw [chunksSlice window (a ++ '\n' :: b), cutsAppended positive full b, List.mapIdx_append, counted,
    chunksFront window a ('\n' :: b)]
  exact congrArg _ behind

end Appended

/- Behind two full blocks, the second of which is blank, a text that opens with a blank line. -/
theorem blankLineAppended :
    let a : Text := "at 1\n\n \n".toList
    let b : Text := "\n\u00e0 2\nat 3".toList
    1 ≤ 2 ∧ 2 ∣ a.lines.length ∧ chunks 2 (a ++ '\n' :: b) =
      chunks 2 a ++ (chunks 2 b).map (Chunk.onward (a.size + 1) (chunks 2 a).length) := by
  intro a b
  have full : 2 ∣ a.lines.length := by decide
  exact ⟨by decide, full, windowsContinued (by decide) full b⟩

end Window

end Intake
