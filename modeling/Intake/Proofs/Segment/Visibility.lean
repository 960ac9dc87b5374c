import Intake.Proofs.Segment.Lossless

/-! Where blank chunks come from. A group of pieces holds the pieces it was opened with, and no piece
is blank; a window of lines opens with one that is not. Only the windows that a piece beyond the limit
is cut into may be blank, and of those of one piece not all are. -/
namespace Intake
open Text (Blank Ahead Laid)

namespace Buffer
open Window (blocksOf blocksFlatten)
open Segmenter (isOversized)
variable {bound limit : Nat} {t : Text}

theorem joinedVisible {a b : Span} (left : t.Within a) (right : t.Within b) (after : a.stop ≤ b.start)
    (visible : ¬ Blank (t.slice a)) : ¬ Blank (t.slice ⟨a.start, b.stop⟩) := by
  have gap := withinGap left right after
  have rest : t.Within ⟨a.stop, b.stop⟩ := withinJoined gap right (Nat.le_refl b.start)
  have joined : t.slice ⟨a.start, b.stop⟩ = t.slice a ++ t.slice ⟨a.stop, b.stop⟩ :=
    Text.sliceJoin left rest
  rw [joined]
  exact fun blank => visible (Text.blankAppend.1 blank).1

/- A group goes on from the piece it was opened with. -/
theorem groupsVisible {spans : List Span} {current : Option Group}
    (filled : ∀ s ∈ spans, t.Within s ∧ ¬ Blank (t.slice s))
    (apart : spans.Pairwise (fun a b => a.stop ≤ b.start))
    (opened : ∀ g ∈ current, (t.Within g.span ∧ ¬ Blank (t.slice g.span)) ∧
      ∀ s ∈ spans, g.span.stop ≤ s.start) :
    ∀ g, .group g ∈ batchesFrom bound limit t current spans → ¬ Blank (t.slice g.span) := by
  have closed : ∀ current : Option Group,
      (∀ g ∈ current, t.Within g.span ∧ ¬ Blank (t.slice g.span)) →
      ∀ g, .group g ∈ close current → ¬ Blank (t.slice g.span) := by
    intro current visible g hg
    cases current with
    | none => cases hg
    | some h =>
      have same : g = h := by simpa [close] using hg
      rw [same]
      exact (visible h rfl).2
  induction spans generalizing current with
  | nil => exact closed current fun g hg => (opened g hg).1
  | cons piece rest ih =>
    obtain ⟨behind, apartRest⟩ := List.pairwise_cons.1 apart
    obtain ⟨inside, filledRest⟩ := List.forall_mem_cons.1 filled
    have alone : ∀ g ∈ some (Group.single piece),
        (t.Within g.span ∧ ¬ Blank (t.slice g.span)) ∧ ∀ s ∈ rest, g.span.stop ≤ s.start := by
      intro g hg
      cases hg
      exact ⟨inside, behind⟩
    intro h
    unfold batchesFrom
    split
    · intro member
      rcases List.mem_append.1 member with member | member
      · exact closed current (fun g hg => (opened g hg).1) h member
      · exact @ih none filledRest apartRest (by simp) h (by simpa using member)
    · split
      · exact ih filledRest apartRest alone h
      · rename_i g
        obtain ⟨⟨within, visible⟩, before⟩ := opened g rfl
        split
        · refine ih filledRest apartRest (fun g' hg => ?_) h
          cases hg
          have after := before piece List.mem_cons_self
          have begins : g.span.start = g.first.start := rfl
          rw [Group.spanAdd, ← begins]
          exact ⟨⟨withinJoined within inside.1 after, joinedVisible within inside.1 after visible⟩,
            behind⟩
        · intro member
          rcases List.mem_cons.1 member with same | member
          · cases same
            exact visible
          · exact ih filledRest apartRest alone h member

/- Of the blocks that a piece is cut into one is not blank. -/
theorem blockVisible {piece : Span} (within : t.Within piece) (visible : ¬ Blank (t.slice piece)) :
    ∃ s ∈ blockSpans bound t piece, ¬ Blank (t.slice s) := by
  refine Classical.byContradiction fun unseen => ?_
  have blank : ∀ u ∈ blocksOf bound (t.slice piece), Blank u := by
    intro u hu
    rw [← blockSlices bound within] at hu
    obtain ⟨s, hs, rfl⟩ := List.mem_map.1 hu
    exact Classical.byContradiction fun shown => unseen ⟨s, hs, shown⟩
  refine visible fun c hc => ?_
  rw [← blocksFlatten bound (t.slice piece)] at hc
  obtain ⟨u, hu, inside⟩ := List.mem_flatten.1 hc
  exact blank u hu c inside

/- One of the consecutive windows of a piece beyond the limit, and they are not all blank. -/
def Windowed (b : Bound) (t : Text) (pieces : List Span) (cs : List Chunk) (c : Chunk) : Prop :=
  ∃ piece ∈ pieces, b.hardLimit < chars t piece ∧ c.span ∈ blockSpans b.maxSize t piece ∧
    ∃ d ∈ cs, isOversized d = true ∧ d.span ∈ blockSpans b.maxSize t piece ∧ ¬ Blank d.content

theorem chunksVisible (b : Bound) (unit : String) {pieces : List Span}
    (filled : ∀ s ∈ pieces, t.Within s ∧ ¬ Blank (t.slice s))
    (apart : pieces.Pairwise (fun a b => a.stop ≤ b.start)) :
    ∀ c ∈ chunks b unit t pieces, isOversized c = false ∧ ¬ Blank c.content ∨
      isOversized c = true ∧ Windowed b t pieces (chunks b unit t pieces) c := by
  intro c hc
  have grouped := chunksBatches b unit (fun s hs => (filled s hs).1) apart
  rw [grouped] at hc ⊢
  obtain ⟨batch, member, made⟩ := List.mem_flatMap.1 hc
  cases batch with
  | group g =>
    rcases List.mem_singleton.1 made with rfl
    exact .inl ⟨rfl, groupsVisible filled apart (by simp) g member⟩
  | oversized piece =>
    have here := oversizedMember member
    obtain ⟨within, visible⟩ := filled piece here
    have spanOf : ∀ s ∈ blockSpans b.maxSize t piece, (emitOversized unit t s).span = s :=
      fun s hs => Chunk.spanCut (blockWithin b.maxSize within s hs)
    obtain ⟨s, hs, rfl⟩ := List.mem_map.1 made
    obtain ⟨v, hv, shown⟩ := @blockVisible b.maxSize t piece within visible
    refine .inr ⟨rfl, piece, here, batchesFit (by simp) _ member, by rwa [spanOf s hs],
      emitOversized unit t v, ?_, rfl, by rwa [spanOf v hv], shown⟩
    exact List.mem_flatMap.2 ⟨_, member, List.mem_map.2 ⟨v, hv, rfl⟩⟩

end Buffer

namespace Segmenter
open Buffer (Windowed)

/- Attaching features leaves what stands in a chunk, and whether it is one of the windows of a piece. -/
def face (c : Chunk) : Chunk × Bool := (c.bare, isOversized c)

theorem attachFace (rules : List CompiledRule) (c : Chunk) :
    face (Feature.attach rules c) = face c := by
  have apart : compare "oversized_atom" "extracted_features" ≠ .eq := by decide
  refine Prod.ext (attachBare rules c) ?_
  unfold Feature.attach
  simp only
  split
  · rfl
  · simp [face, isOversized, Chunk.withMeta, Metadata.contains, Metadata.set, Table.contains, apart]

theorem faceMember {as bs : List Chunk} (same : as.map face = bs.map face) {a : Chunk} (ha : a ∈ as) :
    ∃ b ∈ bs, b.content = a.content ∧ b.span = a.span ∧ isOversized b = isOversized a := by
  obtain ⟨b, hb, alike⟩ := List.mem_map.1 (same ▸ List.mem_map.2 ⟨a, ha, rfl⟩)
  obtain ⟨bare, large⟩ := Prod.mk.inj alike
  have content : b.bare.content = a.bare.content := congrArg Chunk.content bare
  have span : b.bare.span = a.bare.span := congrArg Chunk.span bare
  exact ⟨b, hb, content, span, large⟩

theorem windowVisible {window : Nat} {t : Text} {c : Chunk} (member : c ∈ Window.chunks window t) :
    isOversized c = false ∧ ¬ Blank c.content := by
  obtain ⟨i, cut, hc, rfl⟩ := Window.chunkCut member
  exact ⟨rfl, ((Window.windowsLaid window t).each _ (List.mem_map.2 ⟨cut, hc, rfl⟩)).2⟩

def boundOf (s : Segmenter) (p : Policy) : Bound := .of (maxSize s.config p) s.config.hardLimitFactor

theorem plainVisible (s : Segmenter) (t : Text) (p : Policy) :
    ∀ c ∈ s.plainChunks t p, isOversized c = false ∧ ¬ Blank c.content ∨
      isOversized c = true ∧ p ≠ .logStream ∧
        Windowed (s.boundOf p) t (s.pieces t p) (s.plainChunks t p) c := by
  intro c hc
  have laid := s.piecesLaid t p
  cases p with
  | logStream => exact .inl (windowVisible hc)
  | procedureDoc | technicalFormal | dataTable | mixedSafe | proseText =>
    refine (Buffer.chunksVisible _ _ laid.each laid.apart c hc).imp id ?_
    rintro ⟨large, windowed⟩
    exact ⟨large, by decide, windowed⟩

/- Chunks of one character each. -/
def singleCharacters : Config.Segmenter :=
  { defaultMaxSize := 1, hardLimitFactor := 1, stepPattern := "Step" }

end Segmenter

end Intake
