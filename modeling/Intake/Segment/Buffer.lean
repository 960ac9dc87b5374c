import Intake.Chunk
import Intake.Text.Slices

/-! Bounded buffering. Consecutive pieces join one chunk while the stretch from the first to
the last stays within the bound; a piece beyond the hard limit is cut into windows of its own. -/
namespace Intake

/-- The bound of a buffered chunk in characters, and the size from which a piece is cut. -/
structure Bound where
  maxSize : Nat
  hardLimit : Nat
  positive : 0 < maxSize
  ordered : maxSize ≤ hardLimit
  deriving DecidableEq, Repr

namespace Bound

def largestWord : Nat := UInt64.size - 1

/- Zero acts as one, and the product stops at the largest machine word. -/
def of (maxSize factor : UInt64) : Bound where
  maxSize := max maxSize.toNat 1
  hardLimit := min (max maxSize.toNat 1 * max factor.toNat 1) largestWord
  positive := by omega
  ordered := by
    have word : maxSize.toNat < UInt64.size := maxSize.toNat_lt
    have words : 1 < UInt64.size := by decide
    have grows : max maxSize.toNat 1 * 1 ≤ max maxSize.toNat 1 * max factor.toNat 1 :=
      Nat.mul_le_mul_left _ (by omega)
    have : max maxSize.toNat 1 ≤ largestWord := by unfold largestWord; omega
    omega

end Bound

namespace Buffer

/- A piece with its text, and how many characters lie between the piece before and this one. -/
structure Piece where
  span : Span
  text : Text
  gap : Nat
  deriving DecidableEq, Repr

/- What lies in front of each span, from the end of the one before. -/
def gapsBefore (last : Nat) : List Span → List Span
  | [] => []
  | s :: rest => ⟨last, s.start⟩ :: gapsBefore s.stop rest

def piecesOf (t : Text) (spans : List Span) : List Piece :=
  List.zipWith (fun p (before : Text) => ⟨p.1, p.2, before.length⟩)
    (spans.zip (t.slices spans)) (t.slices (gapsBefore 0 spans))

/- A stretch to be emitted: how many pieces it holds, and whether it is part of one that
was too long. -/
structure Cut where
  span : Span
  atoms : Nat
  oversized : Bool
  deriving DecidableEq, Repr

/- Pieces buffered so far, with the characters from the first to the last. -/
structure Pending where
  span : Span
  chars : Nat
  pieces : Nat
  deriving DecidableEq, Repr

def Pending.cut (p : Pending) : Cut := ⟨p.span, p.pieces, false⟩

def Pending.single (piece : Piece) : Pending := ⟨piece.span, piece.text.length, 1⟩

def flush (pending : Option Pending) : List Cut := (pending.map Pending.cut).toList

/- Consecutive windows of so many characters over a text that begins at `start`, of which
`count` characters have been passed up to `position`. -/
def windowsFrom (limit start position count : Nat) : Text → List Span
  | [] => if start < position then [⟨start, position⟩] else []
  | c :: rest =>
    if count = limit then
      ⟨start, position⟩ :: windowsFrom limit position (position + c.utf8Size) 1 rest
    else windowsFrom limit start (position + c.utf8Size) (count + 1) rest

def windows (b : Bound) (piece : Piece) : List Cut :=
  (windowsFrom b.maxSize piece.span.start piece.span.start 0 piece.text).map (fun s => ⟨s, 1, true⟩)

def cutsFrom (b : Bound) (pending : Option Pending) : List Piece → List Cut
  | [] => flush pending
  | piece :: rest =>
    if b.hardLimit < piece.text.length then
      flush pending ++ windows b piece ++ cutsFrom b none rest
    else match pending with
      | none => cutsFrom b (some (.single piece)) rest
      | some p =>
        let grown := p.chars + piece.gap + piece.text.length
        if b.maxSize < grown then p.cut :: cutsFrom b (some (.single piece)) rest
        else cutsFrom b (some ⟨⟨p.span.start, piece.span.stop⟩, grown, p.pieces + 1⟩) rest

def cuts (b : Bound) (t : Text) (spans : List Span) : List Cut := cutsFrom b none (piecesOf t spans)

def Cut.metadata (c : Cut) (unit : String) : Metadata :=
  let m := (Metadata.empty.setString "type" unit).setNat "atomic_count" c.atoms
  if c.oversized then m.set "oversized_atom" (.bool true) else m

def Cut.chunk (unit : String) (c : Cut) (content : Text) : Chunk :=
  .of content c.span.start (c.metadata unit)

def chunks (b : Bound) (unit : String) (t : Text) (spans : List Span) : List Chunk :=
  let cs := cuts b t spans
  List.zipWith (Cut.chunk unit) cs (t.slices (cs.map (·.span)))

/- A chunk holds what the text has where it was cut. -/
theorem chunksSlice (b : Bound) (unit : String) (t : Text) (spans : List Span) :
    chunks b unit t spans = (cuts b t spans).map (fun c => c.chunk unit (t.slice c.span)) :=
  t.zipSlices Cut.span (Cut.chunk unit) (cuts b t spans)

end Buffer

end Intake
