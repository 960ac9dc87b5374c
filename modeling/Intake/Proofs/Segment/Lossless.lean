import Intake.Proofs.Segment.Buffering
import Intake.Proofs.Segment.Separation
import Intake.Proofs.Segment.Windows
import Intake.Segment.Segmenter

/-! Lossless segmentation. Where pieces are laid out over a text, joining neighbours and cutting
a piece into blocks lays out the results; so no chunk leaves out anything but blanks. -/
namespace Intake
open Text (Blank Laid Ahead)

namespace Buffer
open Window (blocksOf blocksFlatten blocksBounded)
variable {between : Text → Prop}

/- Texts that follow one another behind a gap, in front of spans that are laid out. -/
theorem spansLaid (none : between []) (start : Nat) (gap : Text) {rest : Text} {us : List Text}
    {spans : List Span} (space : between gap) (some : us ≠ []) (filled : ∀ u ∈ us, u ≠ [])
    (tail : Laid between (· ≠ []) (start + Text.size gap + Text.size us.flatten) rest spans) :
    Laid between (· ≠ []) start (gap ++ us.flatten ++ rest)
      (spansFrom (start + Text.size gap) us ++ spans) := by
  induction us generalizing start gap with
  | nil => exact absurd rfl some
  | cons u us ih =>
    refine .span gap u (us.flatten ++ rest) (by simp) space (filled u List.mem_cons_self) rfl rfl ?_
    by_cases more : us = []
    · subst more
      simpa [spansFrom] using tail
    · have next := ih (start + Text.size gap + Text.size u) [] none more
        (fun v hv => filled v (List.mem_cons_of_mem _ hv)) (by simpa [Nat.add_assoc] using tail)
      simpa using next

/- A piece may be cut into blocks where it stands. -/
theorem blocksLaid (none : between []) {bound start : Nat} (positive : 0 < bound)
    {whole t : Text} {piece : Span} {spans : List Span} (ahead : Ahead whole start t)
    (laid : Laid between (· ≠ []) start t (piece :: spans)) :
    Laid between (· ≠ []) start t (blockSpans bound whole piece ++ spans) := by
  obtain ⟨before, same, reached⟩ := ahead
  cases laid with
  | span gap body rest cut space filled starts stops tail =>
    have slice : whole.slice piece = body :=
      Text.sliceWithin (show whole = before ++ gap ++ body ++ rest by simp [same, cut])
        (by simp [starts, reached]) (by simp [stops, starts, reached])
    have flat := blocksFlatten bound body
    have some : blocksOf bound body ≠ [] := fun empty => filled (by rw [← flat, empty]; rfl)
    have next := spansLaid none start gap space some
      (fun u hu => (blocksBounded positive hu).1) (by rw [flat, ← starts, ← stops]; exact tail)
    rw [flat, ← cut, ← starts] at next
    rw [blockSpans, slice]
    exact next

def Batch.spans (bound : Nat) (t : Text) : Batch → List Span
  | group g => [g.span]
  | oversized piece => blockSpans bound t piece

def opened (current : Option Group) : List Span := (current.map Group.span).toList

theorem closeSpans (bound : Nat) (t : Text) (current : Option Group) :
    (close current).flatMap (Batch.spans bound t) = opened current := by
  cases current <;> rfl

/- Grouping lays out the groups and blocks where the pieces are. -/
theorem batchesLaid (none : between []) {bound : Nat} (limit : Nat) (positive : 0 < bound)
    {whole t : Text} {start : Nat} {pieces : List Span} (current : Option Group)
    (ahead : Ahead whole start t)
    (laid : Laid between (· ≠ []) start t (opened current ++ pieces)) :
    Laid between (· ≠ []) start t
      ((batchesFrom bound limit whole current pieces).flatMap (Batch.spans bound whole)) := by
  induction pieces generalizing current start t with
  | nil => rwa [batchesFrom, closeSpans, ← List.append_nil (opened current)]
  | cons piece rest ih =>
    unfold batchesFrom
    split
    · rw [List.flatMap_append, closeSpans, List.flatMap_cons]
      refine Text.laidOnward (opened current) ahead (fun start t ahead laid => ?_) laid
      exact Text.laidOnward _ ahead (fun start t ahead laid => ih .none ahead laid)
        (blocksLaid none positive ahead laid)
    · split
      · exact ih (some (.single piece)) ahead laid
      · rename_i g
        split
        · refine ih (some (g.add piece)) ahead ?_
          have joined := Text.laidJoin laid
          have begins : g.span.start = g.first.start := rfl
          simpa [opened, begins] using joined
        · rw [List.flatMap_cons]
          exact Text.laidOnward [g.span] ahead
            (fun start t ahead laid => ih (some (.single piece)) ahead laid) laid

end Buffer

namespace Text
variable {between inside : Text → Prop}

/- The characters that are not blank. -/
def visible (t : Text) : Text := t.filter (fun c => !Unicode.isBlank c)

theorem visibleAppend (a b : Text) : visible (a ++ b) = visible a ++ visible b :=
  List.filter_append ..

theorem visibleBlank {t : Text} (blank : Blank t) : visible t = [] := by
  refine List.filter_eq_nil_iff.2 fun c hc => ?_
  rw [blank c hc]; simp

theorem visibleSlices {whole t : Text} {start : Nat} {spans : List Span} (ahead : Ahead whole start t)
    (laid : Laid Blank inside start t spans) :
    visible (spans.flatMap whole.slice) = visible t := by
  induction laid with
  | done last => exact (visibleBlank last).symm
  | @span start t s spans gap body rest cut space filled starts stops tail ih =>
    obtain ⟨before, same, reached⟩ := ahead
    have slice : whole.slice s = body :=
      sliceWithin (show whole = before ++ gap ++ body ++ rest by simp [same, cut])
        (by simp [starts, reached]) (by simp [stops, starts, reached])
    have next := ih ⟨before ++ gap ++ body, by simp [same, cut], by simp only [sizeAppend]; omega⟩
    rw [List.flatMap_cons, visibleAppend, slice, next, cut, visibleAppend, visibleAppend,
      visibleBlank space, List.nil_append]

end Text

namespace Chunk

def span (c : Chunk) : Span := ⟨c.offset, c.offset + c.length⟩

/- A chunk without what is known about it. -/
def bare (c : Chunk) : Chunk := { c with metadata := .empty }

/- What a text has at a span. -/
def cut (t : Text) (s : Span) : Chunk := .of (t.slice s) s.start

theorem spanCut {t : Text} {s : Span} (within : t.Within s) : (cut t s).span = s := by
  have ordered : s.start ≤ s.stop := (Text.withinBreaks.1 within).2.2
  simp only [cut, span, Chunk.of, Text.sizeSlice within]
  have stop : s.start + (s.stop - s.start) = s.stop := by omega
  rw [stop]

end Chunk

/- Chunks that stand in a text one behind the other, with nothing but blanks outside them. -/
structure Lossless (t : Text) (cs : List Chunk) : Prop where
  exact : ∀ c ∈ cs, t.Within c.span ∧ t.slice c.span = c.content ∧ c.length = c.content.size
  filled : ∀ c ∈ cs, c.content ≠ []
  ascending : cs.Pairwise (fun a b => a.offset < b.offset)
  apart : cs.Pairwise (fun a b => a.offset + a.length ≤ b.offset)
  blank : ∀ g ∈ Boundary.gaps 0 t.size (cs.map Chunk.span), t.Within g ∧ Blank (t.slice g)
  visible : Text.visible (cs.flatMap Chunk.content) = Text.visible t

theorem losslessCut {t : Text} {spans : List Span} {cs : List Chunk}
    (laid : Laid Blank (· ≠ []) 0 t spans) (bare : cs.map Chunk.bare = spans.map (Chunk.cut t)) :
    Lossless t cs := by
  have each : ∀ s ∈ spans, t.Within s ∧ t.slice s ≠ [] := laid.each
  have origin : Ahead t 0 t := ⟨[], rfl, rfl⟩
  have spansOf : cs.map Chunk.span = spans := by
    have same := congrArg (List.map Chunk.span) bare
    rw [List.map_map, List.map_map] at same
    refine same.trans ((List.map_congr_left fun s hs => ?_).trans (List.map_id spans))
    exact Chunk.spanCut (each s hs).1
  have cutOf : ∀ c ∈ cs, ∃ s ∈ spans, c.bare = Chunk.cut t s := fun c hc => by
    obtain ⟨s, hs, same⟩ := List.mem_map.1 (bare ▸ List.mem_map.2 ⟨c, hc, rfl⟩)
    exact ⟨s, hs, same.symm⟩
  have exact : ∀ c ∈ cs, t.Within c.span ∧ t.slice c.span = c.content ∧
      c.length = c.content.size ∧ c.content ≠ [] := fun c hc => by
    obtain ⟨s, hs, same⟩ := cutOf c hc
    have span : c.span = s := (congrArg Chunk.span same).trans (Chunk.spanCut (each s hs).1)
    have content : c.content = t.slice s := congrArg Chunk.content same
    have length : c.length = (t.slice s).size := congrArg Chunk.length same
    rw [span, content]
    exact ⟨(each s hs).1, rfl, length, (each s hs).2⟩
  have apart : cs.Pairwise (fun a b => a.offset + a.length ≤ b.offset) := by
    have spansApart := laid.apart
    rw [← spansOf] at spansApart
    exact List.pairwise_map.1 spansApart
  refine ⟨fun c hc => ?_, fun c hc => (exact c hc).2.2.2, ?_, apart, ?_, ?_⟩
  · obtain ⟨within, slice, length, -⟩ := exact c hc
    exact ⟨within, slice, length⟩
  · refine apart.imp_of_mem fun {a b} ha _ behind => ?_
    obtain ⟨-, -, length, some⟩ := exact a ha
    have positive : a.content.size ≠ 0 := fun zero => some (Text.sizeZero zero)
    omega
  · rw [spansOf]
    exact Text.gapsBetween origin laid
  · have contents : cs.flatMap Chunk.content = spans.flatMap t.slice := by
      have same := congrArg (List.flatMap Chunk.content) bare
      rwa [List.flatMap_map, List.flatMap_map] at same
    rw [contents]
    exact Text.visibleSlices origin laid

namespace Segmenter

theorem windowsBare (window : Nat) (t : Text) :
    (Window.chunks window t).map Chunk.bare =
      ((Window.cuts window t).map (·.span)).map (Chunk.cut t) := by
  rw [Window.chunksSlice]
  refine List.ext_getElem? fun i => ?_
  simp only [List.getElem?_map, List.getElem?_mapIdx, Option.map_map]
  rfl

theorem batchesBare (bound : Nat) (unit : String) (t : Text) (bs : List Buffer.Batch) :
    (bs.flatMap (Buffer.Batch.chunks bound unit t)).map Chunk.bare =
      (bs.flatMap (Buffer.Batch.spans bound t)).map (Chunk.cut t) := by
  induction bs with
  | nil => rfl
  | cons batch bs ih =>
    rw [List.flatMap_cons, List.flatMap_cons, List.map_append, List.map_append, ih]
    cases batch with
    | group g => rfl
    | oversized piece =>
      rw [Buffer.Batch.chunks, Buffer.Batch.spans, List.map_map]
      rfl

theorem piecesLaid (s : Segmenter) (t : Text) (p : Policy) :
    Laid Blank (fun u => ¬ Blank u) 0 t (s.pieces t p) := by
  cases p with
  | procedureDoc => exact Boundary.markedParagraphsLaid s.stepMarker t
  | technicalFormal | logStream | dataTable | mixedSafe | proseText => exact Boundary.paragraphsLaid t

theorem notEmpty (u : Text) (visible : ¬ Blank u) : u ≠ [] := by
  rintro rfl
  exact visible (by simp [Blank])

/- Whatever the policy, the chunks are cut at spans that are laid out over the text. -/
theorem plainCut (s : Segmenter) (t : Text) (p : Policy) :
    ∃ spans, Laid Blank (· ≠ []) 0 t spans ∧
      (s.plainChunks t p).map Chunk.bare = spans.map (Chunk.cut t) := by
  have windows : ∃ spans, Laid Blank (· ≠ []) 0 t spans ∧
      (Window.chunks s.config.logWindowLines.toNat t).map Chunk.bare = spans.map (Chunk.cut t) :=
    ⟨_, (Window.windowsLaid _ t).imp (fun _ h => h) notEmpty, windowsBare _ t⟩
  have buffered : ∀ b unit, ∃ spans, Laid Blank (· ≠ []) 0 t spans ∧
      (Buffer.chunks b unit t (s.pieces t p)).map Chunk.bare = spans.map (Chunk.cut t) := by
    intro b unit
    have laid := s.piecesLaid t p
    have filled := laid.imp (fun _ h => h) notEmpty
    rw [Buffer.chunksBatches b unit (fun s hs => (laid.each s hs).1) laid.apart, batchesBare]
    exact ⟨_, Buffer.batchesLaid (by simp [Blank]) b.hardLimit b.positive none ⟨[], rfl, rfl⟩ filled, rfl⟩
  cases p with
  | logStream => exact windows
  | procedureDoc | technicalFormal | dataTable | mixedSafe | proseText => exact buffered _ _

theorem attachBare (rules : List CompiledRule) (c : Chunk) :
    (Feature.attach rules c).bare = c.bare := by
  unfold Feature.attach
  simp only
  split <;> rfl

/- What features leave as it is in one chunk they leave in all. -/
theorem applyKeeps {α : Type} {f : Chunk → α} {rules : List CompiledRule}
    (same : ∀ c, f (Feature.attach rules c) = f c) (cs : List Chunk) :
    (Feature.apply rules cs).map f = cs.map f := by
  unfold Feature.apply
  split
  · rfl
  · rw [List.map_map]
    exact List.map_congr_left fun c _ => same c

theorem applyBare (rules : List CompiledRule) (cs : List Chunk) :
    (Feature.apply rules cs).map Chunk.bare = cs.map Chunk.bare := applyKeeps (attachBare rules) cs

theorem chunksLossless (s : Segmenter) (t : Text) (p : Policy) : Lossless t (s.chunks t p) := by
  obtain ⟨spans, laid, bare⟩ := s.plainCut t p
  exact losslessCut laid ((applyBare s.rules _).trans bare)

end Segmenter

end Intake
