import Intake.Proofs.Segment.Blocks
import Intake.Proofs.Text.Layout
import Intake.Segment.Buffer

/-! Grouping of pieces. Pieces are grouped by measuring whole slices: a piece joins the group
before it when the slice from the group's start to the piece's end is within the bound, and one
beyond the hard limit stands alone. Buffering, which only keeps a running count, gives the
chunks of these groups. -/
namespace Intake.Buffer
open Window (blocksOf blocksNil blocksShort blocksFull)

def chars (t : Text) (s : Span) : Nat := (t.slice s).length

/- Neighbouring pieces that are emitted together. -/
structure Group where
  first : Span
  later : List Span
  deriving DecidableEq, Repr

namespace Group

def stop (g : Group) : Nat := (g.later.getLast?.getD g.first).stop

def span (g : Group) : Span := ⟨g.first.start, g.stop⟩

def size (g : Group) : Nat := g.later.length + 1

def single (piece : Span) : Group := ⟨piece, []⟩

def add (g : Group) (piece : Span) : Group := { g with later := g.later ++ [piece] }

@[simp] theorem spanSingle (piece : Span) : (single piece).span = piece := rfl

@[simp] theorem sizeSingle (piece : Span) : (single piece).size = 1 := rfl

@[simp] theorem spanAdd (g : Group) (piece : Span) :
    (g.add piece).span = ⟨g.first.start, piece.stop⟩ := by
  simp [span, stop, add]

@[simp] theorem sizeAdd (g : Group) (piece : Span) : (g.add piece).size = g.size + 1 := by
  simp [size, add]

end Group

inductive Batch where
  | group (g : Group)
  | oversized (piece : Span)
  deriving DecidableEq, Repr

def close (current : Option Group) : List Batch := (current.map Batch.group).toList

def batchesFrom (bound limit : Nat) (t : Text) (current : Option Group) : List Span → List Batch
  | [] => close current
  | piece :: rest =>
    if limit < chars t piece then
      close current ++ .oversized piece :: batchesFrom bound limit t none rest
    else match current with
      | none => batchesFrom bound limit t (some (.single piece)) rest
      | some g =>
        if chars t ⟨g.first.start, piece.stop⟩ ≤ bound then
          batchesFrom bound limit t (some (g.add piece)) rest
        else .group g :: batchesFrom bound limit t (some (.single piece)) rest

def batches (bound limit : Nat) (t : Text) (pieces : List Span) : List Batch :=
  batchesFrom bound limit t none pieces

/- Where texts that follow one another stand. -/
def spansFrom (start : Nat) : List Text → List Span
  | [] => []
  | u :: rest => ⟨start, start + Text.size u⟩ :: spansFrom (start + Text.size u) rest

/- A piece beyond the limit in blocks of so many characters. -/
def blockSpans (bound : Nat) (t : Text) (piece : Span) : List Span :=
  spansFrom piece.start (blocksOf bound (t.slice piece))

def emit (unit : String) (t : Text) (atoms : Nat) (s : Span) : Chunk :=
  .of (t.slice s) s.start
    ((Metadata.empty.setString "type" unit).setNat "atomic_count" atoms)

def emitOversized (unit : String) (t : Text) (s : Span) : Chunk :=
  .of (t.slice s) s.start
    (((Metadata.empty.setString "type" unit).setNat "atomic_count" 1).set
      "oversized_atom" (.bool true))

def Batch.chunks (bound : Nat) (unit : String) (t : Text) : Batch → List Chunk
  | group g => [emit unit t g.size g.span]
  | oversized piece => (blockSpans bound t piece).map (emitOversized unit t)

/- Windows count characters as they go; the blocks are cut off one by one. -/
theorem windowsBlocks {limit position count : Nat} (start : Nat) (passed text : Text)
    (positive : 0 < limit) (length : passed.length = count) (bounded : count ≤ limit)
    (reached : position = start + Text.size passed) :
    windowsFrom limit start position count text = spansFrom start (blocksOf limit (passed ++ text)) := by
  induction text generalizing start position count passed with
  | nil =>
    unfold windowsFrom
    rw [List.append_nil]
    by_cases none : passed = []
    · subst none
      simp [reached, blocksNil, spansFrom]
    · have some : start < position := by
        have : Text.size passed ≠ 0 := fun zero => none (Text.sizeZero zero)
        omega
      rw [if_pos some, blocksShort none (by omega)]
      simp [spansFrom, reached]
  | cons c text ih =>
    unfold windowsFrom
    split
    · rename_i full
      have next := ih position [c] rfl positive rfl
      rw [blocksFull positive (by omega)]
      simpa [spansFrom, reached] using next
    · rw [ih start (passed ++ [c]) (by simp [length]) (by omega) (by simp [reached]; omega)]
      simp

theorem windowsSpans (b : Bound) {t : Text} (s : Span) (gap : Nat) :
    windows b ⟨s, t.slice s, gap⟩ =
      (blockSpans b.maxSize t s).map (fun s => ⟨s, 1, true⟩) := by
  have cut := windowsBlocks s.start [] (t.slice s) b.positive rfl (Nat.zero_le _) rfl
  rw [List.nil_append] at cut
  rw [windows, blockSpans, ← cut]
  rfl

/- The pieces as the loop meets them, the last one having ended at a position. -/
def piecesFrom (t : Text) (last : Nat) : List Span → List Piece
  | [] => []
  | s :: rest => ⟨s, t.slice s, chars t ⟨last, s.start⟩⟩ :: piecesFrom t s.stop rest

theorem piecesOfFrom (t : Text) (spans : List Span) : piecesOf t spans = piecesFrom t 0 spans := by
  unfold piecesOf
  rw [Text.slicesMap, Text.slicesMap]
  generalize 0 = last
  induction spans generalizing last with
  | nil => rfl
  | cons s rest ih => simp [gapsBefore, piecesFrom, chars, ih]

def pendingOf (t : Text) (g : Group) : Pending := ⟨g.span, chars t g.span, g.size⟩

section Joined
variable {t : Text} {a b : Span} (left : t.Within a) (right : t.Within b) (after : a.stop ≤ b.start)
include left right after

theorem withinGap : t.Within ⟨a.stop, b.start⟩ :=
  Text.withinBreaks.2 ⟨(Text.withinBreaks.1 left).2.1, (Text.withinBreaks.1 right).1, after⟩

theorem withinJoined : t.Within ⟨a.start, b.stop⟩ := by
  obtain ⟨start, -, forward⟩ := Text.withinBreaks.1 left
  obtain ⟨-, stop, forward'⟩ := Text.withinBreaks.1 right
  exact Text.withinBreaks.2 ⟨start, stop, Nat.le_trans forward (Nat.le_trans after forward')⟩

/- The count that is carried along is that of the whole slice. -/
theorem charsJoined :
    chars t a + chars t ⟨a.stop, b.start⟩ + chars t b = chars t ⟨a.start, b.stop⟩ := by
  have gap := withinGap left right after
  have rest : t.Within ⟨a.stop, b.stop⟩ := withinJoined gap right (Nat.le_refl b.start)
  have joined := (Text.sliceJoin left rest).trans (congrArg _ (Text.sliceJoin gap right))
  have counted := congrArg List.length joined
  simp only [List.length_append] at counted
  exact (Nat.add_assoc ..).trans counted.symm

end Joined

theorem cutsBatches (b : Bound) (unit : String) {t : Text} {spans : List Span}
    (current : Option Group) (last : Nat) (within : ∀ s ∈ spans, t.Within s)
    (apart : spans.Pairwise (fun a b => a.stop ≤ b.start))
    (opened : ∀ g ∈ current, g.span.stop = last ∧ t.Within g.span ∧ ∀ s ∈ spans, last ≤ s.start) :
    (cutsFrom b (current.map (pendingOf t)) (piecesFrom t last spans)).map
        (fun c => c.chunk unit (t.slice c.span)) =
      (batchesFrom b.maxSize b.hardLimit t current spans).flatMap
        (Batch.chunks b.maxSize unit t) := by
  have flushed : ∀ current : Option Group,
      (flush (current.map (pendingOf t))).map (fun c => c.chunk unit (t.slice c.span)) =
        (close current).flatMap (Batch.chunks b.maxSize unit t) := fun current => by
    cases current <;> rfl
  induction spans generalizing current last with
  | nil => exact flushed current
  | cons piece rest ih =>
    have tail := List.pairwise_cons.1 apart
    have inside := within piece List.mem_cons_self
    have onward := fun current last => ih current last
      (fun s hs => within s (List.mem_cons_of_mem _ hs)) tail.2
    have fresh : ∀ g ∈ some (Group.single piece),
        g.span.stop = piece.stop ∧ t.Within g.span ∧ ∀ s ∈ rest, piece.stop ≤ s.start := by
      intro g hg
      cases hg
      exact ⟨rfl, inside, tail.1⟩
    simp only [piecesFrom, cutsFrom, batchesFrom]
    have same : (t.slice piece).length = chars t piece := rfl
    rw [same]
    split
    · rw [List.map_append, List.map_append, flushed, List.flatMap_append, List.flatMap_cons,
        windowsSpans, List.map_map, List.append_assoc]
      have next := onward none piece.stop (by simp)
      rw [Option.map_none] at next
      rw [next]
      rfl
    · cases current with
      | none => exact onward (some (.single piece)) piece.stop fresh
      | some g =>
        obtain ⟨ends, withinG, after⟩ := opened g rfl
        subst ends
        have grown := charsJoined withinG inside (after piece List.mem_cons_self)
        have begins : g.span.start = g.first.start := rfl
        simp only [Option.map_some, pendingOf]
        rw [grown, begins]
        by_cases fits : chars t ⟨g.first.start, piece.stop⟩ ≤ b.maxSize
        · rw [if_neg (by omega), if_pos fits]
          have joined := onward (some (g.add piece)) piece.stop (by
            intro g' hg
            cases hg
            rw [Group.spanAdd]
            exact ⟨rfl, withinJoined (a := g.span) withinG inside (after piece List.mem_cons_self),
              tail.1⟩)
          simp only [Option.map_some, pendingOf, Group.spanAdd, Group.sizeAdd] at joined
          exact joined
        · rw [if_pos (by omega), if_neg fits, List.map_cons, List.flatMap_cons]
          have next := onward (some (.single piece)) piece.stop fresh
          exact congrArg (emit unit t g.size g.span :: ·) next

/- Buffering pieces in order gives the chunks of their groups. -/
theorem chunksBatches (b : Bound) (unit : String) {t : Text} {pieces : List Span}
    (within : ∀ s ∈ pieces, t.Within s) (apart : pieces.Pairwise (fun a b => a.stop ≤ b.start)) :
    chunks b unit t pieces =
      (batches b.maxSize b.hardLimit t pieces).flatMap (Batch.chunks b.maxSize unit t) := by
  rw [chunksSlice, cuts, piecesOfFrom]
  exact cutsBatches b unit none 0 within apart (by simp)

end Intake.Buffer
