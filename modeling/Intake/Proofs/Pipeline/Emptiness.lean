import Intake.Proofs.Normalization
import Intake.Proofs.Pipeline.Provenance
import Intake.Proofs.Signature.Counting
import Intake.Proofs.Text.Joined
import Mathlib.Data.List.TFAE

/-! Emptiness. Lines, words, pieces and windows each have a test of their own for what is blank;
all of them find nothing in a text exactly when it holds nothing but blanks, and what is normalized
is blank exactly when the given text held nothing but blanks and NULs. -/
namespace Intake
open Text (Blank Laid)
open Unicode (isBlank)

namespace Text

/- What does not separate stands in a field. -/
theorem fieldsCover {separates : Char → Bool} {t : Text} {c : Char} (member : c ∈ t)
    (keeps : separates c = false) : ∃ field ∈ fields separates t, c ∈ field := by
  induction t with
  | nil => cases member
  | cons d t ih =>
    unfold fields
    rcases List.mem_cons.1 member with rfl | member
    · rw [if_neg (by rw [keeps]; simp)]
      split
      · exact ⟨[c], List.mem_cons_self, List.mem_cons_self⟩
      · exact ⟨_, List.mem_cons_self, List.mem_cons_self⟩
    · obtain ⟨field, hf, inside⟩ := ih member
      split
      · exact ⟨field, List.mem_cons_of_mem _ hf, inside⟩
      · split
        · rename_i none
          exact absurd none (fieldsNonempty _ _)
        · rename_i first others same
          rw [same] at hf
          rcases List.mem_cons.1 hf with rfl | hf
          · exact ⟨_, List.mem_cons_self, List.mem_cons_of_mem _ inside⟩
          · exact ⟨field, List.mem_cons_of_mem _ hf, inside⟩

theorem wordsEmpty {t : Text} : words t = [] ↔ Blank t := by
  refine ⟨fun none c hc => ?_, wordsBlank⟩
  cases visible : isBlank c with
  | true => rfl
  | false =>
    obtain ⟨field, hf, inside⟩ := fieldsCover hc visible
    have word : field ∈ words t := List.mem_filter.2 ⟨hf, by simpa using List.ne_nil_of_mem inside⟩
    rw [none] at word
    cases word

theorem linesBlank {t : Text} : (∀ l ∈ t.lines, Blank l) ↔ Blank t := by
  rw [← blankJoinLines, joinLinesLines]

theorem laidNothing {inside : Text → Prop} {t : Text} {spans : List Span}
    (laid : Laid Blank inside 0 t spans) (none : spans = []) : Blank t := by
  subst none
  cases laid with
  | done last => exact last

end Text

namespace Frequency

theorem vocabularyEmpty {ws : List Text} : vocabulary ws = 0 ↔ ws = [] := by
  rw [vocabularyTally, tallyDistinct, Finset.card_eq_zero, List.toFinset_eq_empty_iff]

end Frequency

namespace Detector

theorem contentEmpty {t : Text} : contentLines t = [] ↔ Blank t := by
  rw [contentLines, List.filter_eq_nil_iff, ← Text.linesBlank]
  simp only [decide_eq_true_eq, not_not]

/- No count of markers makes lines an empty text, and no lines make up any other mode. -/
theorem classifyEmpty {c : Config.Detector} {lineCount : Nat} {m : MarkerCounts} :
    classify c lineCount m = .empty ↔ lineCount = 0 := by
  unfold classify
  by_cases none : lineCount = 0
  · simp [none]
  · simp only [none, if_false, iff_false]
    repeat' split
    all_goals exact fun other => Mode.noConfusion other

theorem signatureEmpty {c : Config.Detector} {t : Text} (blank : Blank t) :
    signature c t = .empty := by
  rw [signature, contentEmpty.2 blank]
  rfl

theorem signatureFilled {c : Config.Detector} {t : Text} (visible : ¬ Blank t) :
    signature c t = ⟨shape c t (contentLines t), distribution c t (contentLines t),
      stability c (shape c t (contentLines t)).mode (distribution c t (contentLines t))⟩ := by
  have some : ¬ (contentLines t).isEmpty = true := by rwa [List.isEmpty_iff, contentEmpty]
  rw [signature, if_neg some]

theorem lineCountEmpty {c : Config.Detector} {t : Text} :
    (signature c t).shape.lineCount = 0 ↔ Blank t := by
  by_cases blank : Blank t
  · rw [signatureEmpty blank]
    exact ⟨fun _ => blank, fun _ => rfl⟩
  · rw [signatureFilled blank, ← contentEmpty]
    exact List.length_eq_zero_iff

theorem modeEmpty {c : Config.Detector} {t : Text} :
    (signature c t).mode = .empty ↔ Blank t := by
  by_cases blank : Blank t
  · rw [signatureEmpty blank]
    exact ⟨fun _ => blank, fun _ => rfl⟩
  · rw [signatureFilled blank, ← contentEmpty, ← List.length_eq_zero_iff]
    exact classifyEmpty

theorem vocabularyEmpty {c : Config.Detector} {t : Text} :
    (signature c t).distribution.vocabulary = 0 ↔ Blank t := by
  by_cases blank : Blank t
  · rw [signatureEmpty blank]
    exact ⟨fun _ => blank, fun _ => rfl⟩
  · rw [signatureFilled blank, ← Text.wordsEmpty]
    exact Frequency.vocabularyEmpty

theorem shortCircuitEmpty {c : Config.Detector} {t : Text} :
    (detect c t).2.trace.get? "short_circuit" = some (.bool true) ↔ Blank t := by
  have recorded : (detect c t).2.trace.get? "short_circuit" =
      some (.bool (contentLines t).isEmpty) := by
    simp [detect, audit, Metadata.setString]
  rw [recorded, Option.some.injEq, Json.Value.bool.injEq, List.isEmpty_iff, contentEmpty]

end Detector

namespace Segmenter

theorem plainEmpty (s : Segmenter) (t : Text) (p : Policy) : s.plainChunks t p = [] ↔ Blank t := by
  constructor
  · intro none
    obtain ⟨spans, laid, bare⟩ := s.plainCut t p
    rw [none, List.map_nil] at bare
    exact Text.laidNothing laid (List.map_eq_nil_iff.1 bare.symm)
  · intro blank
    have pieces : s.pieces t p = [] := Text.laidEmpty (s.piecesLaid t p) blank
    have windows := Text.laidEmpty (Window.windowsLaid s.config.logWindowLines.toNat t) blank
    rw [List.map_eq_nil_iff] at windows
    have buffered : ∀ b unit, Buffer.chunks b unit t (s.pieces t p) = [] := fun b unit => by
      rw [pieces]; rfl
    cases p with
    | logStream => rw [plainChunks, Window.chunksSlice, windows]; rfl
    | procedureDoc | technicalFormal | dataTable | mixedSafe | proseText => exact buffered _ _

theorem chunksEmpty (s : Segmenter) (t : Text) (p : Policy) : s.chunks t p = [] ↔ Blank t := by
  have bare := congrArg (· = []) (applyBare s.rules (s.plainChunks t p))
  simp only [List.map_eq_nil_iff] at bare
  rw [chunks, bare, plainEmpty]

end Segmenter

namespace Compression

theorem compressEmpty (c : Config.Compressor) (cs : List Chunk) (p : Policy) :
    (compress c cs p).chunks = [] ↔ cs = [] := by
  have accounts := compressAccounts c cs p
  have kept : (compress c cs p).chunks = [] ↔ (compress c cs p).retained = [] := by
    have lengths := congrArg List.length accounts.kept
    rw [List.length_map, List.length_map] at lengths
    rw [← List.length_eq_zero_iff, ← List.length_eq_zero_iff, lengths]
  rw [kept]
  constructor
  · intro none
    have complete := accounts.complete
    rw [none] at complete
    have range : List.range cs.length = [] := complete.nil_eq.symm
    rwa [List.range_eq_nil, List.length_eq_zero_iff] at range
  · rintro rfl
    have complete := accounts.complete.eq_nil
    refine List.eq_nil_iff_forall_not_mem.2 fun r hr => ?_
    obtain ⟨later, answer, -, -⟩ := accounts.alike r hr
    have none := List.flatMap_eq_nil_iff.1 complete r hr
    rw [answer] at none
    cases none

end Compression

namespace Normalization

theorem blankReturn : isBlank '\x0d' = true := by decide

theorem blankFold {t : Text} : Blank (foldPairs t) ↔ Blank t := by
  fun_induction foldPairs t with
  | case1 t ih =>
    simp only [Blank, List.forall_mem_cons] at ih ⊢
    rw [ih]
    simp [blankReturn]
  | case2 c t _ ih => simp only [Blank, List.forall_mem_cons] at ih ⊢; rw [ih]
  | case3 => rfl

theorem blankReturns {t : Text} : Blank (foldReturns t) ↔ Blank t := by
  have alike : ∀ c : Char, isBlank (if c = '\x0d' then '\n' else c) = isBlank c := by
    intro c
    split
    · rename_i same; subst same; rw [blankReturn, Unicode.blankNewline]
    · rfl
  simp only [Blank, foldReturns, List.forall_mem_map, alike]

theorem blankNormalize {t : Text} :
    Blank (normalize t) ↔ ∀ c ∈ t, c = '\x00' ∨ isBlank c = true := by
  rw [normalize, blankReturns, blankFold]
  simp only [Blank, memberDrop, and_imp, or_iff_not_imp_left, ne_eq]

end Normalization

namespace Pipeline

end Pipeline

end Intake
