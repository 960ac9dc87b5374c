import Intake.Proofs.Safety.Pieces
import Intake.Proofs.Safety.Windows
import Intake.Segment.Segmenter

/-! Buffering and segmentation, checked. Every piece is a slice, and so is the gap in front of it
and all that is emitted; the characters and pieces that are counted are those of the text. So under
every policy segmentation is defined, whatever the sizes. -/
namespace Intake

namespace Buffer
open Checked (slice sum word length sliceOk sumOk wordOk lengthOk okBind wordOfSize)
open Text (Blank)

def checkedEmit (unit : String) (t : Text) (p : Pending) : Checked Chunk := do
  let content ← slice t p.span
  .ok (p.cut.chunk unit content)

def checkedFlush (unit : String) (t : Text) : Option Pending → Checked (List Chunk)
  | none => .ok []
  | some p => do
    let chunk ← checkedEmit unit t p
    .ok [chunk]

/- A window over a piece: its slice is taken from the piece, its offset is that in the text. -/
def checkedWindow (unit : String) (body : Text) (base : Nat) (s : Span) : Checked Chunk := do
  let content ← slice body s
  let offset ← sum base s.start
  .ok (.of content offset (Cut.metadata ⟨s, 1, true⟩ unit))

def checkedWindowsFrom (unit : String) (limit : Nat) (body : Text) (base start position count : Nat) :
    Text → Checked (List Chunk)
  | [] =>
    if start < body.size then do
      let last ← checkedWindow unit body base ⟨start, body.size⟩
      .ok [last]
    else .ok []
  | c :: rest =>
    if count = limit then do
      let chunk ← checkedWindow unit body base ⟨start, position⟩
      let one ← sum 0 1
      let later ← checkedWindowsFrom unit limit body base position (position + c.utf8Size) one rest
      .ok (chunk :: later)
    else do
      let more ← sum count 1
      checkedWindowsFrom unit limit body base start (position + c.utf8Size) more rest

def checkedSplit (b : Bound) (unit : String) (t : Text) (piece : Span) : Checked (List Chunk) := do
  let body ← slice t piece
  checkedWindowsFrom unit b.maxSize body piece.start 0 0 0 body

def checkedFrom (b : Bound) (unit : String) (t : Text) (pending : Option Pending) :
    List Span → Checked (List Chunk)
  | [] => checkedFlush unit t pending
  | piece :: rest => do
    let inside ← slice t piece
    let chars ← length inside
    if b.hardLimit < chars then
      let flushed ← checkedFlush unit t pending
      let windows ← checkedSplit b unit t piece
      let later ← checkedFrom b unit t none rest
      .ok (flushed ++ windows ++ later)
    else match pending with
      | none => checkedFrom b unit t (some ⟨piece, chars, 1⟩) rest
      | some p =>
        let between ← slice t ⟨p.span.stop, piece.start⟩
        let gap ← length between
        let grown ← sum (← sum p.chars gap) chars
        if b.maxSize < grown then
          let chunk ← checkedEmit unit t p
          let later ← checkedFrom b unit t (some ⟨piece, chars, 1⟩) rest
          .ok (chunk :: later)
        else
          let pieces ← sum p.pieces 1
          checkedFrom b unit t (some ⟨⟨p.span.start, piece.stop⟩, grown, pieces⟩) rest

/- Both sizes have to be machine words, the product that is the limit too. -/
def checkedChunks (b : Bound) (unit : String) (t : Text) (spans : List Span) :
    Checked (List Chunk) := do
  let _ ← word b.maxSize
  let _ ← word b.hardLimit
  checkedFrom b unit t none spans

/- The product that would be too large stops at the largest word. -/
theorem boundWords (maxSize factor : UInt64) :
    (Bound.of maxSize factor).maxSize < UInt64.size ∧
      (Bound.of maxSize factor).hardLimit < UInt64.size := by
  have limit : (Bound.of maxSize factor).hardLimit ≤ Bound.largestWord := Nat.min_le_right _ _
  have least := (Bound.of maxSize factor).ordered
  have largest : Bound.largestWord < UInt64.size := by decide
  omega

section Windows
variable (unit : String) {t before after body : Text} (held : t.size ≤ Text.longest)
  (whole : t = before ++ body ++ after)
include held whole

/- A part of a piece is where it is in the text, behind the place where the piece begins. -/
theorem windowSafe {front inside behind : Text} (parts : body = front ++ inside ++ behind) {s : Span}
    (start : s.start = Text.size front) (stop : s.stop = Text.size front + Text.size inside) :
    checkedWindow unit body (Text.size before) s =
      .ok (Cut.chunk unit ⟨⟨Text.size before + s.start, Text.size before + s.stop⟩, 1, true⟩
        (t.slice ⟨Text.size before + s.start, Text.size before + s.stop⟩)) := by
  have within : body.Within s := ⟨front, inside, behind, parts, start, stop⟩
  have slices : body.slice s = inside := Text.sliceWithin parts start stop
  have all : t = (before ++ front) ++ inside ++ (behind ++ after) := by rw [whole, parts]; simp
  have place : Text.size (before ++ front) = Text.size before + Text.size front := Text.sizeAppend _ _
  have same : t.slice ⟨Text.size before + s.start, Text.size before + s.stop⟩ = inside :=
    Text.sliceWithin all (by rw [place, start]) (by rw [place, stop, Nat.add_assoc])
  have fits : Text.size before + s.start < UInt64.size := by
    refine wordOfSize held ?_
    rw [all, Text.sizeAppend, Text.sizeAppend, place]
    omega
  simp only [checkedWindow, sliceOk within, slices, okBind, sumOk fits, same]
  rfl

/- What was passed since the last window began, and what is left of the piece. -/
theorem windowsFromSafe (limit : Nat) (front passed rest : Text) (parts : body = front ++ passed ++ rest)
    {start position count : Nat} (starts : start = Text.size front)
    (reached : position = start + Text.size passed) (counted : count = passed.length) :
    checkedWindowsFrom unit limit body (Text.size before) start position count rest =
      .ok ((windowsFrom limit (Text.size before + start) (Text.size before + position) count rest).map
        fun s => Cut.chunk unit ⟨s, 1, true⟩ (t.slice s)) := by
  have stop : position = Text.size front + Text.size passed := by rw [reached, starts]
  induction rest generalizing front passed start position count with
  | nil =>
    have size : Text.size body = position := by rw [parts, stop]; simp
    have last := windowSafe unit held whole parts (s := ⟨start, Text.size body⟩) starts
      (size.trans stop)
    unfold checkedWindowsFrom windowsFrom
    by_cases some : start < position
    · rw [if_pos (by omega), if_pos (by omega), last, size]
      rfl
    · rw [if_neg (by omega), if_neg (by omega)]
      rfl
  | cons c rest ih =>
    have further : Text.size before + position + c.utf8Size =
        Text.size before + (position + c.utf8Size) := Nat.add_assoc ..
    unfold checkedWindowsFrom windowsFrom
    split
    · have chunk := windowSafe unit held whole parts (s := ⟨start, position⟩) starts stop
      have one : 0 + 1 < UInt64.size := by decide
      have later := ih (front ++ passed) [c] (by simp [parts]) (by rw [stop, Text.sizeAppend])
        (Eq.refl (position + Text.size [c])) rfl (by rw [Text.sizeAppend, ← stop])
      simp only [Text.sizeCons, Text.sizeNil, Nat.add_zero, List.length_singleton] at later
      simp only [chunk, sumOk one, okBind, later, List.map_cons, further]
    · have room : passed.length + 1 < UInt64.size := by
        have short := Text.lengthSize passed
        have positive := Text.charPositive c
        refine wordOfSize held ?_
        rw [whole, parts]
        simp only [Text.sizeAppend]
        omega
      have more : count + 1 < UInt64.size := by rwa [counted]
      have later := ih front (passed ++ [c]) (by simp [parts]) starts
        (Eq.refl (start + Text.size (passed ++ [c])))
        (show count + 1 = (passed ++ [c]).length by rw [counted, List.length_append]; rfl)
        (by rw [starts])
      have onward : start + Text.size (passed ++ [c]) = position + c.utf8Size := by
        rw [Text.sizeAppend, reached, Text.sizeCons, Text.sizeNil]; omega
      rw [onward] at later
      simp only [sumOk more, okBind, later, further]

end Windows

theorem splitSafe (b : Bound) (unit : String) {t : Text} (held : t.size ≤ Text.longest) {piece : Span}
    (within : t.Within piece) (gap : Nat) :
    checkedSplit b unit t piece =
      .ok ((windows b ⟨piece, t.slice piece, gap⟩).map fun c => c.chunk unit (t.slice c.span)) := by
  have slices := sliceOk within
  obtain ⟨before, body, after, whole, start, stop⟩ := within
  have same : t.slice piece = body := Text.sliceWithin whole start stop
  have all := windowsFromSafe unit held whole b.maxSize [] [] body rfl (Eq.refl 0) (Eq.refl 0)
    (Eq.refl 0)
  rw [checkedSplit, slices, okBind, same, start, all, windows, List.map_map, start]
  rfl

/- What is pending when the pieces that are left begin behind a position. -/
structure Opened (t : Text) (last : Nat) (spans : List Span) (p : Pending) : Prop where
  ends : p.span.stop = last
  within : t.Within p.span
  later : ∀ s ∈ spans, last ≤ s.start
  chars : p.chars = (t.slice p.span).length
  pieces : p.pieces + spans.length < UInt64.size

theorem emitSafe (unit : String) {t : Text} {p : Pending} (within : t.Within p.span) :
    checkedEmit unit t p = .ok (p.cut.chunk unit (t.slice p.cut.span)) := by
  rw [checkedEmit, sliceOk within, okBind]
  rfl

theorem flushSafe (unit : String) {t : Text} {pending : Option Pending}
    (within : ∀ p ∈ pending, t.Within p.span) :
    checkedFlush unit t pending =
      .ok ((flush pending).map fun c => c.chunk unit (t.slice c.span)) := by
  cases pending with
  | none => rfl
  | some p =>
    rw [checkedFlush, emitSafe unit (within p rfl), okBind]
    rfl

theorem sliceLength {t : Text} (held : t.size ≤ Text.longest) {s : Span} (within : t.Within s) :
    (t.slice s).length < UInt64.size := by
  have short := Text.lengthSize (t.slice s)
  have bound := Text.withinBound within
  rw [Text.sizeSlice within] at short
  exact wordOfSize held (by omega)

/- A piece of its own is pending. -/
theorem openedFresh {t : Text} {piece : Span} {rest : List Span} (inside : t.Within piece)
    (later : ∀ s ∈ rest, piece.stop ≤ s.start) (few : rest.length + 1 < UInt64.size) :
    Opened t piece.stop rest ⟨piece, (t.slice piece).length, 1⟩ where
  ends := rfl
  within := inside
  later := later
  chars := rfl
  pieces := by rw [Nat.add_comm]; exact few

/- A piece joins what is pending, together with what stands between them. -/
theorem openedJoined {t : Text} {last : Nat} {piece : Span} {rest : List Span} {p : Pending}
    (opened : Opened t last (piece :: rest) p) (inside : t.Within piece)
    (later : ∀ s ∈ rest, piece.stop ≤ s.start) :
    Opened t piece.stop rest ⟨⟨p.span.start, piece.stop⟩,
      p.chars + chars t ⟨p.span.stop, piece.start⟩ + (t.slice piece).length, p.pieces + 1⟩ := by
  obtain ⟨rfl, within, behind, counted, pieces⟩ := opened
  have after : p.span.stop ≤ piece.start := behind piece List.mem_cons_self
  refine ⟨rfl, withinJoined within inside after, later, ?_, ?_⟩
  · rw [counted]
    exact charsJoined within inside after
  · rw [List.length_cons] at pieces
    simp only
    omega

theorem fromSafe (b : Bound) (unit : String) {t : Text} (held : t.size ≤ Text.longest)
    {spans : List Span} (pending : Option Pending) (last : Nat) (within : ∀ s ∈ spans, t.Within s)
    (apart : spans.Pairwise (fun a b => a.stop ≤ b.start)) (few : spans.length < UInt64.size)
    (opened : ∀ p ∈ pending, Opened t last spans p) :
    checkedFrom b unit t pending spans =
      .ok ((cutsFrom b pending (piecesFrom t last spans)).map
        fun c => c.chunk unit (t.slice c.span)) := by
  induction spans generalizing pending last with
  | nil => exact flushSafe unit fun p hp => (opened p hp).within
  | cons piece rest ih =>
    have tail := List.pairwise_cons.1 apart
    have inside := within piece List.mem_cons_self
    rw [List.length_cons] at few
    have onward := fun pending last => ih pending last
      (fun s hs => within s (List.mem_cons_of_mem _ hs)) tail.2 (by omega)
    have fresh : ∀ p ∈ some (Pending.mk piece (t.slice piece).length 1),
        Opened t piece.stop rest p := fun p hp => by
      cases hp
      exact openedFresh inside tail.1 few
    simp only [checkedFrom, piecesFrom, cutsFrom, sliceOk inside, okBind,
      lengthOk (sliceLength held inside)]
    split
    · rw [flushSafe unit fun p hp => (opened p hp).within, okBind,
        splitSafe b unit held inside (chars t ⟨last, piece.start⟩), okBind,
        onward none piece.stop (by simp), okBind, List.map_append, List.map_append]
    · cases pending with
      | none => exact onward (some ⟨piece, (t.slice piece).length, 1⟩) piece.stop fresh
      | some p =>
        have joined := openedJoined (opened p rfl) inside tail.1
        obtain ⟨rfl, before, later, -, -⟩ := opened p rfl
        have gap := withinGap before inside (later piece List.mem_cons_self)
        have lengths : (t.slice ⟨p.span.stop, piece.start⟩).length =
            chars t ⟨p.span.stop, piece.start⟩ := rfl
        have total : p.chars + chars t ⟨p.span.stop, piece.start⟩ + (t.slice piece).length <
            UInt64.size := by
          have fits := sliceLength held joined.within
          rwa [← joined.chars] at fits
        have sums : p.chars + chars t ⟨p.span.stop, piece.start⟩ < UInt64.size := by omega
        simp only [sliceOk gap, okBind, lengthOk (sliceLength held gap), lengths, sumOk sums,
          sumOk total]
        split
        · rw [emitSafe unit before, okBind, onward _ piece.stop fresh, okBind, List.map_cons]
          rfl
        · have pieces := joined.pieces
          have more : p.pieces + 1 < UInt64.size := by simp only at pieces; omega
          rw [sumOk more, okBind]
          refine onward _ piece.stop fun q hq => ?_
          cases hq
          exact joined

/- Pieces within a text that stand apart, and not more of them than can be counted. -/
theorem chunksSafe (maxSize factor : UInt64) (unit : String) {t : Text} (held : t.size ≤ Text.longest)
    {spans : List Span} (within : ∀ s ∈ spans, t.Within s)
    (apart : spans.Pairwise (fun a b => a.stop ≤ b.start)) (few : spans.length < UInt64.size) :
    checkedChunks (.of maxSize factor) unit t spans = .ok (chunks (.of maxSize factor) unit t spans) := by
  obtain ⟨size, limit⟩ := boundWords maxSize factor
  rw [checkedChunks, wordOk size, okBind, wordOk limit, okBind, chunksSlice, cuts, piecesOfFrom]
  exact fromSafe _ unit held none 0 within apart few (by simp)

end Buffer

namespace Segmenter
open Checked (count countOk okBind wordOfSize)

def checkedPieces (s : Segmenter) (t : Text) : Policy → Checked (List Span)
  | .procedureDoc => Boundary.checkedMarkedParagraphs s.stepMarker t
  | _ => Boundary.checkedParagraphs t

def checkedPlainChunks (s : Segmenter) (t : Text) : Policy → Checked (List Chunk)
  | .logStream => Window.checkedChunks s.config.logWindowLines.toNat t
  | p => do
    let pieces ← s.checkedPieces t p
    Buffer.checkedChunks (.of (maxSize s.config p) s.config.hardLimitFactor) (unitName p) t pieces

def checkedSegment (s : Segmenter) (t : Text) (p : Policy) (signature : Signature) :
    Checked (List Chunk × Audit) := do
  let plain ← s.checkedPlainChunks t p
  let chunks := Feature.apply s.rules plain
  let _ ← count isOversized chunks
  .ok (chunks, s.record p signature plain chunks)

theorem piecesSafe (s : Segmenter) {t : Text} (held : t.size ≤ Text.longest) (p : Policy) :
    s.checkedPieces t p = .ok (s.pieces t p) := by
  cases p with
  | procedureDoc => exact Boundary.markedParagraphsSafe s.stepMarker held
  | technicalFormal | logStream | dataTable | mixedSafe | proseText =>
    exact Boundary.paragraphsSafe held

theorem plainChunksSafe (s : Segmenter) {t : Text} (held : t.size ≤ Text.longest) (p : Policy) :
    s.checkedPlainChunks t p = .ok (s.plainChunks t p) := by
  have laid := s.piecesLaid t p
  have few : (s.pieces t p).length ≤ t.size := Text.laidLength (laid.imp (fun _ h => h) notEmpty)
  have buffered : ∀ maxSize factor unit, Buffer.checkedChunks (.of maxSize factor) unit t (s.pieces t p) =
      .ok (Buffer.chunks (.of maxSize factor) unit t (s.pieces t p)) := fun maxSize factor unit =>
    Buffer.chunksSafe maxSize factor unit held (fun r hr => (laid.each r hr).1) laid.apart
      (wordOfSize held (by omega))
  cases p with
  | logStream => exact Window.chunksSafe _ held
  | procedureDoc | technicalFormal | dataTable | mixedSafe | proseText =>
    simp only [checkedPlainChunks, s.piecesSafe held, okBind, buffered]
    rfl

/- Under every policy, with whatever sizes and patterns, segmentation is defined. -/
theorem segmentSafe (s : Segmenter) {t : Text} (held : t.size ≤ Text.longest) (p : Policy)
    (signature : Signature) : s.checkedSegment t p signature = .ok (s.segment t p signature) := by
  obtain ⟨spans, laid, bare⟩ := s.plainCut t p
  have lengths := congrArg List.length ((applyBare s.rules _).trans bare)
  rw [List.length_map, List.length_map] at lengths
  have few : spans.length ≤ t.size := Text.laidLength laid
  have fits : (Feature.apply s.rules (s.plainChunks t p)).length < UInt64.size := by
    rw [lengths]; exact wordOfSize held (by omega)
  simp only [checkedSegment, s.plainChunksSafe held, okBind, countOk fits]
  rfl

end Segmenter

end Intake
