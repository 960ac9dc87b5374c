import Intake.Proofs.Segment.Lossless
import Mathlib.Algebra.Order.Floor.Div

/-! Windows of a piece that is beyond the limit. They are the blocks that its text falls into, each where
it stands; all of them are full but for the last, and none is empty. They come behind the chunks of the
pieces before and in front of those of the pieces after, which are what they would be without them. -/
namespace Intake

namespace Window
variable {α : Type} {n : Nat}

/- So many blocks that the last one is reached, and begun at least. -/
theorem blocksCount (positive : 0 < n) (xs : List α) : (blocksOf n xs).length = xs.length ⌈/⌉ n := by
  have one : max n 1 = n := Nat.max_eq_left positive
  fun_induction blocksOf n xs with
  | case1 => rw [List.length_nil, List.length_nil, zero_ceilDiv]
  | case2 xs some ih =>
    have filled : 0 < xs.length := List.length_pos_iff.mpr some
    rw [List.length_cons, ih, one, List.length_drop, Nat.ceilDiv_eq_add_pred_div,
      Nat.ceilDiv_eq_add_pred_div]
    rcases Nat.le_total n xs.length with enough | short
    · have parts : xs.length + n - 1 = xs.length - n + n - 1 + n := by omega
      rw [parts, Nat.add_div_right _ positive]
    · have last : xs.length + n - 1 = xs.length - 1 + n := by omega
      have small : xs.length - n + n - 1 < n := by omega
      have rest : xs.length - 1 < n := by omega
      rw [last, Nat.add_div_right _ positive, Nat.div_eq_of_lt small, Nat.div_eq_of_lt rest]

end Window

namespace Buffer
open Json (Value)
open Window (blocksOf blocksFlatten blocksBounded blocksCount blocksWhole)
variable (b : Bound) (unit : String) (t : Text)

/- What is emitted for a piece that is cut into windows; the gap in front of it has no part in that. -/
def windowChunks (piece : Span) : List Chunk :=
  (windows b ⟨piece, t.slice piece, 0⟩).map (fun c => c.chunk unit (t.slice c.span))

theorem windowChunksBlocks (piece : Span) :
    windowChunks b unit t piece = (blockSpans b.maxSize t piece).map (emitOversized unit t) := by
  rw [windowChunks, windowsSpans, List.map_map]
  rfl

section Appended

/- Behind a piece beyond the limit nothing is pending, so buffering starts anew. -/
theorem cutsBeyond {piece : Piece} (beyond : b.hardLimit < piece.text.length) (front rest : List Piece)
    (pending : Option Pending) : cutsFrom b pending (front ++ piece :: rest) =
      cutsFrom b pending front ++ windows b piece ++ cutsFrom b none rest := by
  induction front generalizing pending with
  | nil => simp only [List.nil_append, cutsFrom, if_pos beyond]
  | cons p front ih =>
    simp only [List.cons_append, cutsFrom]
    split
    · simp only [ih, List.append_assoc]
    · cases pending with
      | none => exact ih _
      | some q =>
        simp only
        split
        · simp only [ih, List.cons_append]
        · exact ih _

theorem piecesFromAppend (last : Nat) (front : List Span) (piece : Span) (rest : List Span) :
    ∃ gap, piecesFrom t last (front ++ piece :: rest) =
      piecesFrom t last front ++ ⟨piece, t.slice piece, gap⟩ :: piecesFrom t piece.stop rest := by
  induction front generalizing last with
  | nil => exact ⟨_, rfl⟩
  | cons s front ih =>
    obtain ⟨gap, parts⟩ := ih s.stop
    exact ⟨gap, congrArg (_ :: ·) parts⟩

/- Where nothing is pending it does not matter how far off the first piece is. -/
theorem cutsAnew (last last' : Nat) (spans : List Span) :
    cutsFrom b none (piecesFrom t last spans) = cutsFrom b none (piecesFrom t last' spans) := by
  cases spans with
  | nil => rfl
  | cons s rest => rfl

/- What was emitted for the pieces before stays in front of the windows. -/
theorem chunksBeyond {piece : Span} (beyond : b.hardLimit < chars t piece) (front back : List Span) :
    chunks b unit t (front ++ piece :: back) =
      chunks b unit t front ++ windowChunks b unit t piece ++ chunks b unit t back := by
  obtain ⟨gap, parts⟩ := piecesFromAppend t 0 front piece back
  have long : b.hardLimit < (Piece.mk piece (t.slice piece) gap).text.length := beyond
  have cut : cuts b t (front ++ piece :: back) =
      cuts b t front ++ windows b ⟨piece, t.slice piece, gap⟩ ++ cuts b t back := by
    rw [cuts, cuts, cuts, piecesOfFrom, piecesOfFrom, piecesOfFrom, parts, cutsBeyond b long,
      cutsAnew b t piece.stop 0]
  have same : windows b ⟨piece, t.slice piece, gap⟩ = windows b ⟨piece, t.slice piece, 0⟩ := rfl
  rw [chunksSlice, chunksSlice, chunksSlice, cut, same, List.map_append, List.map_append]
  rfl

end Appended

section Windows
variable {t} {piece : Span} (within : t.Within piece)
include within

theorem windowContents : (windowChunks b unit t piece).map Chunk.content =
    blocksOf b.maxSize (t.slice piece) := by
  rw [windowChunksBlocks, List.map_map, ← blockSlices b.maxSize within]
  rfl

/- Each window stands where the one before it ends, the first where the piece begins. -/
theorem windowSpans : (windowChunks b unit t piece).map Chunk.span =
    spansFrom piece.start ((windowChunks b unit t piece).map Chunk.content) := by
  have spans : ∀ s ∈ blockSpans b.maxSize t piece, (emitOversized unit t s).span = s := fun s hs =>
    Chunk.spanCut (blockWithin b.maxSize within s hs)
  rw [windowContents b unit within, windowChunksBlocks, List.map_map]
  exact (List.map_congr_left spans).trans (List.map_id _)

/- A window taken by itself is a block of the piece. -/
theorem windowBlock {c : Chunk} (member : c ∈ windowChunks b unit t piece) :
    c.content ∈ blocksOf b.maxSize (t.slice piece) := by
  rw [← windowContents b unit within]
  exact List.mem_map.mpr ⟨c, member, rfl⟩

theorem windowFull {c : Chunk} (member : c ∈ (windowChunks b unit t piece).dropLast) :
    c.content.length = b.maxSize := by
  apply blocksWhole b.positive (t.slice piece)
  rw [← windowContents b unit within, ← List.map_dropLast]
  exact List.mem_map.mpr ⟨c, member, rfl⟩

end Windows

/- Whatever the sizes, a piece is cut into as many windows as it takes, one behind the other; and where
it is beyond the limit, they join what was emitted before. -/
theorem oversizedWindows {piece : Span} (within : t.Within piece) :
    let cs := windowChunks b unit t piece
    cs.length = chars t piece ⌈/⌉ b.maxSize ∧
    cs.flatMap Chunk.content = t.slice piece ∧
    (∀ c ∈ cs.dropLast, c.content.length = b.maxSize) ∧
    (∀ c ∈ cs, 1 ≤ c.content.length ∧ c.content.length ≤ b.maxSize) ∧
    cs.map Chunk.span = spansFrom piece.start (cs.map Chunk.content) ∧
    (∀ c ∈ cs, c.metadata.get? "oversized_atom" = some (.bool true) ∧
      c.metadata.get? "atomic_count" = some (.ofNat 1) ∧
      c.metadata.get? "type" = some (.string unit)) ∧
    (b.hardLimit < chars t piece → ∀ front back,
      chunks b unit t (front ++ piece :: back) =
        chunks b unit t front ++ cs ++ chunks b unit t back) := by
  intro cs
  have contents : cs.map Chunk.content = blocksOf b.maxSize (t.slice piece) :=
    windowContents b unit within
  refine ⟨?_, ?_, fun c => windowFull b unit within, fun c member => ?_, windowSpans b unit within,
    fun c member => ?_, chunksBeyond b unit t⟩
  · have count := congrArg List.length contents
    rw [List.length_map, blocksCount b.positive] at count
    exact count
  · rw [List.flatMap_def, contents, blocksFlatten]
  · obtain ⟨some, bounded⟩ := blocksBounded b.positive (windowBlock b unit within member)
    exact ⟨List.length_pos_iff.mpr some, bounded⟩
  · have made : c ∈ (blockSpans b.maxSize t piece).map (emitOversized unit t) := by
      rwa [← windowChunksBlocks]
    obtain ⟨s, -, rfl⟩ := List.mem_map.mp made
    exact ⟨rfl, rfl, rfl⟩

/- Five characters of one to four bytes, two to a window, between two pieces within the limit. -/
theorem mixedWidthsWindowed :
    let t : Text := "x aé€😀z y".toList
    let piece : Span := ⟨2, 13⟩
    let cs := windowChunks (.of 2 1) "prose_block" t piece
    t.Within piece ∧ (Bound.of 2 1).hardLimit < chars t piece ∧ cs.length = 3 ∧
    cs.map (fun c => (c.offset, String.ofList c.content)) = [(2, "aé"), (5, "€😀"), (12, "z")] ∧
    chunks (.of 2 1) "prose_block" t [⟨0, 1⟩, piece, ⟨14, 15⟩] =
      chunks (.of 2 1) "prose_block" t [⟨0, 1⟩] ++ cs ++
        chunks (.of 2 1) "prose_block" t [⟨14, 15⟩] := by
  intro t piece cs
  have within : t.Within piece := ⟨"x ".toList, "aé€😀z".toList, " y".toList, rfl, rfl, rfl⟩
  have beyond : (Bound.of 2 1).hardLimit < chars t piece := by decide +kernel
  obtain ⟨count, -, -, -, -, -, among⟩ := oversizedWindows (.of 2 1) "prose_block" t within
  have three : chars t piece ⌈/⌉ (Bound.of 2 1).maxSize = 3 := by decide +kernel
  have joined := among beyond [⟨0, 1⟩] [⟨14, 15⟩]
  have cut : cs.map (fun c => (c.offset, String.ofList c.content)) =
      [(2, "aé"), (5, "€😀"), (12, "z")] := by decide +kernel
  exact ⟨within, beyond, count.trans three, cut, joined⟩

end Buffer

end Intake
