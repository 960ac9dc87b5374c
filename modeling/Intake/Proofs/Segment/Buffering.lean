import Intake.Proofs.Segment.Grouping
import Intake.Segment.Segmenter
import Mathlib.Algebra.GroupWithZero.Nat

/-! Buffering. Whatever the sizes asked for, the chunks are those of the groups that whole slices
are measured for; so they keep the bounds, and the pieces they count are all there are. -/
namespace Intake.Buffer
open Window (blocksOf blocksFlatten blocksBounded)
open Segmenter (isOversized)

section Batches
variable {bound limit : Nat} {t : Text}

/- A group keeps the bound unless it is a single piece, which keeps the limit. -/
def Group.Fits (bound limit : Nat) (t : Text) (g : Group) : Prop :=
  chars t g.span ≤ bound ∨ g.size = 1 ∧ chars t g.span ≤ limit

def Batch.Fits (bound limit : Nat) (t : Text) : Batch → Prop
  | group g => g.Fits bound limit t
  | oversized piece => limit < chars t piece

theorem closeFits {current : Option Group} (fits : ∀ g ∈ current, g.Fits bound limit t) :
    ∀ b ∈ close current, b.Fits bound limit t := by
  intro b hb
  obtain ⟨g, hg, rfl⟩ := Option.map_eq_some_iff.1 (Option.mem_toList.1 hb)
  exact fits g hg

theorem batchesFit {spans : List Span} {current : Option Group}
    (fits : ∀ g ∈ current, g.Fits bound limit t) :
    ∀ b ∈ batchesFrom bound limit t current spans, b.Fits bound limit t := by
  induction spans generalizing current with
  | nil => exact closeFits fits
  | cons piece rest ih =>
    unfold batchesFrom
    split
    · rename_i beyond
      intro b hb
      rcases List.mem_append.1 hb with hb | hb
      · exact closeFits fits b hb
      rcases List.mem_cons.1 hb with rfl | hb
      · exact beyond
      · exact ih (by simp) b hb
    · rename_i inLimit
      have alone : ∀ g ∈ some (Group.single piece), g.Fits bound limit t := by
        intro g hg
        cases hg
        exact .inr ⟨rfl, Nat.le_of_not_lt inLimit⟩
      split
      · exact ih alone
      · rename_i g
        split
        · rename_i inBound
          refine ih (fun g' hg => ?_)
          cases hg
          exact .inl (by rwa [Group.spanAdd])
        · intro b hb
          rcases List.mem_cons.1 hb with rfl | hb
          · exact fits g rfl
          · exact ih alone b hb

def Batch.atoms : Batch → Nat
  | group g => g.size
  | oversized _ => 0

/- Every piece is counted in a group or is beyond the limit. -/
theorem batchesCount (bound limit : Nat) (t : Text) (spans : List Span) (current : Option Group) :
    ((batchesFrom bound limit t current spans).map Batch.atoms).sum +
        spans.countP (fun s => decide (limit < chars t s)) =
      (current.map Group.size).getD 0 + spans.length := by
  have closed : ∀ current : Option Group,
      ((close current).map Batch.atoms).sum = (current.map Group.size).getD 0 := fun current => by
    cases current <;> rfl
  induction spans generalizing current with
  | nil => simp [batchesFrom, closed]
  | cons piece rest ih =>
    unfold batchesFrom
    split
    · rename_i beyond
      have next := ih none
      simp only [Option.map_none, Option.getD_none] at next
      simp only [List.map_append, List.map_cons, List.sum_append, List.sum_cons, closed, Batch.atoms,
        List.countP_cons, beyond, decide_true, if_true, List.length_cons]
      omega
    · rename_i inLimit
      have alone := ih (some (.single piece))
      simp only [Option.map_some, Option.getD_some, Group.sizeSingle] at alone
      simp only [List.countP_cons, inLimit, decide_false, Bool.false_eq_true, if_false,
        List.length_cons]
      split
      · simp only [Option.map_none, Option.getD_none]; omega
      · rename_i g
        split
        · have joined := ih (some (g.add piece))
          simp only [Option.map_some, Option.getD_some, Group.sizeAdd] at joined ⊢
          omega
        · simp only [List.map_cons, List.sum_cons, Batch.atoms, Option.map_some, Option.getD_some]
          omega

end Batches

/- Texts that follow one another are the slices where they stand. -/
theorem spansSlices {t after : Text} (before : Text) {us : List Text}
    (whole : t = before ++ us.flatten ++ after) :
    (spansFrom (Text.size before) us).map t.slice = us := by
  induction us generalizing before with
  | nil => rfl
  | cons u us ih =>
    have slice : t.slice ⟨Text.size before, Text.size before + Text.size u⟩ = u :=
      Text.sliceWithin (show t = before ++ u ++ (us.flatten ++ after) by simp [whole]) rfl rfl
    have next := ih (before ++ u) (by simp [whole])
    rw [Text.sizeAppend] at next
    rw [spansFrom, List.map_cons, slice, next]

theorem spansWithin {t after : Text} (before : Text) {us : List Text}
    (whole : t = before ++ us.flatten ++ after) : ∀ s ∈ spansFrom (Text.size before) us, t.Within s := by
  induction us generalizing before with
  | nil => exact fun s hs => absurd hs List.not_mem_nil
  | cons u us ih =>
    have next := ih (before ++ u) (by simp [whole])
    rw [Text.sizeAppend] at next
    intro s hs
    rcases List.mem_cons.mp hs with rfl | later
    · exact ⟨before, u, us.flatten ++ after, by simp [whole], rfl, rfl⟩
    · exact next s later

section Blocks
variable (bound : Nat) {t : Text} {piece : Span} (within : t.Within piece)
include within

theorem blockSlices : (blockSpans bound t piece).map t.slice = blocksOf bound (t.slice piece) := by
  obtain ⟨before, inside, after, whole, start, stop⟩ := within
  rw [blockSpans, start, Text.sliceWithin whole start stop]
  exact spansSlices before (by rw [blocksFlatten]; exact whole)

theorem blockWithin : ∀ s ∈ blockSpans bound t piece, t.Within s := by
  obtain ⟨before, inside, after, whole, start, stop⟩ := within
  rw [blockSpans, start, Text.sliceWithin whole start stop]
  exact spansWithin before (by rw [blocksFlatten]; exact whole)

end Blocks

/- How many pieces a chunk says it holds. -/
def atomsOf (c : Chunk) : Nat :=
  match c.metadata.get? "atomic_count" with
  | some (.int n) => n.toNat
  | _ => 0

theorem oversizedEmit (unit : String) (t : Text) (n : Nat) (s : Span) :
    isOversized (emit unit t n s) = false := rfl

theorem oversizedEmitOversized (unit : String) (t : Text) (s : Span) :
    isOversized (emitOversized unit t s) = true := rfl

theorem atomsEmit (unit : String) (t : Text) (n : Nat) (s : Span) :
    atomsOf (emit unit t n s) = n := rfl

section Chunks
variable {bound limit : Nat} {unit : String} {t : Text}

theorem batchChunkFits {batch : Batch} (fits : batch.Fits bound limit t) {c : Chunk}
    (member : c ∈ batch.chunks bound unit t) (small : isOversized c = false) :
    c.content.length ≤ bound ∨ atomsOf c = 1 ∧ c.content.length ≤ limit := by
  cases batch with
  | group g =>
    rcases List.mem_singleton.1 member with rfl
    exact fits
  | oversized piece =>
    obtain ⟨s, _, rfl⟩ := List.mem_map.1 member
    cases small

theorem batchWindowFits (positive : 0 < bound) {batch : Batch}
    (within : ∀ piece, batch = .oversized piece → t.Within piece) {c : Chunk}
    (member : c ∈ batch.chunks bound unit t) (large : isOversized c = true) :
    c.content.length ≤ bound := by
  cases batch with
  | group g =>
    rcases List.mem_singleton.1 member with rfl
    cases large
  | oversized piece =>
    obtain ⟨s, hs, rfl⟩ := List.mem_map.1 member
    have block : t.slice s ∈ blocksOf bound (t.slice piece) := by
      rw [← blockSlices bound (within piece rfl)]
      exact List.mem_map.2 ⟨s, hs, rfl⟩
    exact (blocksBounded positive block).2

theorem batchesAtoms (bs : List Batch) :
    (((bs.flatMap (Batch.chunks bound unit t)).filter (fun c => !isOversized c)).map atomsOf).sum =
      (bs.map Batch.atoms).sum := by
  induction bs with
  | nil => rfl
  | cons batch bs ih =>
    rw [List.flatMap_cons, List.filter_append, List.map_append, List.sum_append, ih]
    cases batch with
    | group g => simp [Batch.chunks, oversizedEmit, atomsEmit, Batch.atoms]
    | oversized piece =>
      have none : ((blockSpans bound t piece).map (emitOversized unit t)).filter
          (fun c => !isOversized c) = [] := by
        simp [List.filter_eq_nil_iff, oversizedEmitOversized]
      simp [Batch.chunks, none, Batch.atoms]

end Chunks

/- An oversized piece is one of the pieces. -/
theorem oversizedMember {bound limit : Nat} {t : Text} {spans : List Span} {current : Option Group}
    {piece : Span} (h : .oversized piece ∈ batchesFrom bound limit t current spans) :
    piece ∈ spans := by
  have notClosed : ∀ current : Option Group, .oversized piece ∉ close current := fun current => by
    cases current <;> simp [close]
  induction spans generalizing current with
  | nil => exact absurd h (notClosed current)
  | cons s rest ih =>
    unfold batchesFrom at h
    split at h
    · rcases List.mem_append.1 h with h | h
      · exact absurd h (notClosed current)
      rcases List.mem_cons.1 h with h | h
      · cases h; exact List.mem_cons_self
      · exact List.mem_cons_of_mem _ (ih h)
    · split at h
      · exact List.mem_cons_of_mem _ (ih h)
      · split at h
        · exact List.mem_cons_of_mem _ (ih h)
        · rcases List.mem_cons.1 h with h | h
          · cases h
          · exact List.mem_cons_of_mem _ (ih h)

/- With a bound and a limit of at least one character, the limit a saturated product. -/
theorem chunksAreGrouped (maxSize factor : UInt64) (unit : String) {t : Text} {pieces : List Span}
    (within : ∀ s ∈ pieces, t.Within s) (apart : pieces.Pairwise (fun a b => a.stop ≤ b.start)) :
    let bound := max maxSize.toNat 1
    let limit := min (bound * max factor.toNat 1) (UInt64.size - 1)
    let cs := chunks (.of maxSize factor) unit t pieces
    cs = (batches bound limit t pieces).flatMap (Batch.chunks bound unit t) ∧
    (∀ c ∈ cs, isOversized c = false →
      c.content.length ≤ bound ∨ atomsOf c = 1 ∧ c.content.length ≤ limit) ∧
    (∀ c ∈ cs, isOversized c = true → c.content.length ≤ bound) ∧
    ((cs.filter (fun c => !isOversized c)).map atomsOf).sum +
      pieces.countP (fun s => decide (limit < chars t s)) = pieces.length := by
  intro bound limit cs
  have grouped : cs = (batches bound limit t pieces).flatMap (Batch.chunks bound unit t) :=
    chunksBatches (.of maxSize factor) unit within apart
  refine ⟨grouped, fun c hc small => ?_, fun c hc large => ?_, ?_⟩
  · rw [grouped] at hc
    obtain ⟨batch, hb, member⟩ := List.mem_flatMap.1 hc
    exact batchChunkFits (batchesFit (by simp) batch hb) member small
  · rw [grouped] at hc
    obtain ⟨batch, hb, member⟩ := List.mem_flatMap.1 hc
    refine batchWindowFits (Bound.of maxSize factor).positive (fun piece same => ?_) member large
    subst same
    exact within piece (oversizedMember hb)
  · have counted := batchesCount bound limit t pieces none
    rw [grouped, batchesAtoms]
    simpa [batches] using counted

/- Two pieces that fit together, one beyond the limit, and one more behind it. -/
theorem samplePiecesGrouped :
    let t : Text := "ab cd efghij\nk".toList
    let pieces : List Span := [⟨0, 2⟩, ⟨3, 5⟩, ⟨6, 12⟩, ⟨13, 14⟩]
    (∀ s ∈ pieces, t.Within s) ∧ pieces.Pairwise (fun a b => a.stop ≤ b.start) ∧
    (chunks (.of 5 1) "prose_block" t pieces).map (fun c => (c.offset, String.ofList c.content)) =
      [(0, "ab cd"), (6, "efghi"), (11, "j"), (13, "k")] := by
  intro t pieces
  have within : ∀ s ∈ pieces, t.Within s := by
    simp only [pieces, List.forall_mem_cons, List.not_mem_nil, false_implies, implies_true, and_true]
    exact ⟨⟨[], "ab".toList, " cd efghij\nk".toList, rfl, rfl, rfl⟩,
      ⟨"ab ".toList, "cd".toList, " efghij\nk".toList, rfl, rfl, rfl⟩,
      ⟨"ab cd ".toList, "efghij".toList, "\nk".toList, rfl, rfl, rfl⟩,
      ⟨"ab cd efghij\n".toList, "k".toList, [], rfl, rfl, rfl⟩⟩
  have apart : pieces.Pairwise (fun a b => a.stop ≤ b.start) := by decide
  refine ⟨within, apart, ?_⟩
  rw [(chunksAreGrouped 5 1 "prose_block" within apart).1]
  decide +kernel

end Intake.Buffer
