import Intake.Chunk
import Intake.Text.Slices

/-! Windows of lines for log streams. Lines are taken in blocks of fixed size; a block gives
one chunk, from its first line that is not blank to its last line, or none if all are blank. -/
namespace Intake.Window

/- Consecutive blocks of `n` entries, the last perhaps shorter; zero acts as one. -/
def blocksOf {α : Type} (n : Nat) (xs : List α) : List (List α) :=
  if xs = [] then [] else xs.take (max n 1) :: blocksOf n (xs.drop (max n 1))
termination_by xs.length
decreasing_by
  rename_i nonempty
  have := List.length_pos_iff.2 nonempty
  simp only [List.length_drop]; omega

structure Line where
  text : Text
  span : Span
  deriving DecidableEq, Repr

def linesOf (t : Text) : List Line :=
  List.zipWith Line.mk t.lines (Text.lineSpans 0 t.lines)

/- A window to be emitted and the number of its lines. -/
structure Cut where
  span : Span
  lineCount : Nat
  deriving DecidableEq, Repr

def cut? (block : List Line) : Option Cut :=
  match block.dropWhile (fun l => decide l.text.Blank) with
  | [] => none
  | first :: rest =>
    some ⟨⟨first.span.start, (rest.getLast?.getD first).span.stop⟩, rest.length + 1⟩

def cuts (window : Nat) (t : Text) : List Cut := (blocksOf window (linesOf t)).filterMap cut?

def Cut.chunk (c : Cut) (sequence : Nat) (content : Text) : Chunk :=
  .of content c.span.start
    (((Metadata.empty.setString "type" "log_window").setNat "log_sequence" sequence).setNat
      "line_count" c.lineCount)

def chunks (window : Nat) (t : Text) : List Chunk :=
  let cs := cuts window t
  (List.zipWith Prod.mk cs (t.slices (cs.map (·.span)))).mapIdx (fun i p => p.1.chunk i p.2)

theorem chunksSlice (window : Nat) (t : Text) :
    chunks window t = (cuts window t).mapIdx (fun i c => c.chunk i (t.slice c.span)) := by
  refine List.ext_getElem? fun i => ?_
  simp [chunks, t.zipSlices Cut.span Prod.mk, Function.comp_def]

end Intake.Window
