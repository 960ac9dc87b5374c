import Mathlib
import Intake.Proofs.Config.Changes

/-! Configurations read from a text. What its object states replaces the default, and nothing else
does; what has been read has been checked, and what passes the check is read back from its own
JSON value. -/
namespace Intake
open Json (Document Label)
open Json.Document (Word)

namespace Fault

inductive OfConfiguration : Fault → Prop
  | threshold {t : Threshold} : OfConfiguration (.badThreshold t)
  | size {s : SizeSetting} : OfConfiguration (.zeroSize s)
  | stepPattern : OfConfiguration .emptyStepPattern

end Fault

namespace Config

theorem checkFault {c : Config} {fault : Fault} (refused : c.check = .error fault) :
    fault.OfConfiguration := by
  unfold check at refused
  split at refused
  · cases refused
    exact .threshold
  · cases refused
    exact .size
  · split at refused
    · cases refused
      exact .stepPattern
    · cases refused

/- What is read is handed out only if the check accepts it. -/
theorem ofDocumentCheck {d : Document} {c : Config} (found : ofDocument? d = some c) :
    ofDocument d = c.check.map (fun _ => c) := by
  rw [ofDocument, found]
  rfl

theorem ofDocumentChecked {d : Document} {c : Config} (result : ofDocument d = .ok c) :
    c.check = .ok () := by
  cases found : ofDocument? d with
  | none =>
    rw [ofDocument, found] at result
    cases result
  | some e =>
    rw [ofDocumentCheck found] at result
    cases accepted : e.check with
    | error fault =>
      rw [accepted] at result
      cases result
    | ok =>
      rw [accepted] at result
      cases result
      exact accepted

theorem readChecked {t : Text} {c : Config} (result : read t = .ok c) : c.check = .ok () := by
  rw [read] at result
  split at result
  · cases result
  · exact ofDocumentChecked result

theorem readChanges {t : Text} {members : List (Label × Document)} {c : Changes}
    (document : Document.read t = some (.object members)) (changes : Changes.In members c) :
    read t = c.applied.check.map (fun _ => c.applied) := by
  rw [read, document]
  exact ofDocumentCheck (Changes.changesKnown (.object changes))

theorem writtenRead {c : Config} (accepted : c.check = .ok ()) :
    ofDocument c.toValue.document = .ok c := by
  have known := Changes.changesKnown (Changes.changesWritten ((checkSound c).1 accepted))
  rw [Changes.allApplied] at known
  rw [ofDocumentCheck known, accepted]
  rfl

theorem changesReplaceDefaults :
    (∀ (t : Text) (members : List (Label × Document)) (c : Changes),
      Document.read t = some (.object members) → Changes.In members c →
        (c.applied.check = .ok () → read t = .ok c.applied) ∧
        (c.applied.check ≠ .ok () →
          ∃ fault, c.applied.check = .error fault ∧ fault.OfConfiguration ∧ read t = .error fault)) ∧
    (∀ (t : Text) (c : Config), read t = .ok c → c.check = .ok ()) ∧
    (∀ c : Config, c.check = .ok () → ofDocument c.toValue.document = .ok c) := by
  refine ⟨fun t members c document changes => ?_, fun _ _ => readChecked, fun _ => writtenRead⟩
  rw [readChanges document changes]
  cases checked : c.applied.check with
  | ok => exact ⟨fun _ => rfl, fun refused => absurd rfl refused⟩
  | error fault =>
    have other : (Except.error fault : Except Fault Unit) ≠ .ok () := by simp
    exact ⟨fun accepted => absurd accepted other, fun _ => ⟨fault, rfl, checkFault checked, rfl⟩⟩

/- A raised limit and a rule for tickets; a version is no setting. -/
def ticketsText : Text :=
  ("\x7b\"version\":2,\"segmenter\":\x7b\"hard_limit_factor\":5,\"extraction_rules\":" ++
    "[\x7b\"pattern\":\"T\\\\d\",\"name\":\"ticket\",\"mapping\":\x7b\"0\":\"id\"\x7d\x7d]\x7d\x7d").toList

def ticketsRule : ExtractionRule := ⟨"ticket", "T\\d", Table.ofList [(0, "id")]⟩

def ticketsChanges : Changes :=
  { segmenter := some { hardLimitFactor := some 5, extractionRules := some [ticketsRule] } }

def ticketsRuleMembers : List (Label × Document) :=
  [(⟨"pattern", true⟩, .string "T\\d"), (⟨"name", true⟩, .string "ticket"),
   (⟨"mapping", true⟩, .object [(⟨"0", true⟩, .string "id")])]

def ticketsSection : List (Label × Document) :=
  [(⟨"hard_limit_factor", true⟩, .int 5),
   (⟨"extraction_rules", true⟩, .array [.object ticketsRuleMembers])]

def ticketsMembers : List (Label × Document) :=
  [(⟨"version", true⟩, .int 2), (⟨"segmenter", true⟩, .object ticketsSection)]

theorem ticketsRuleIn : ExtractionRule.In ticketsRuleMembers ticketsRule where
  name := .once [_] [_] rfl rfl (by decide) .string
  pattern := .once [] [_, _] rfl rfl (by decide) .string
  mapping := .once [_, _] [] rfl rfl (by decide)
    (ExtractionRule.Mapping.object [(0, "id")])

theorem ticketsIn : Changes.In ticketsMembers ticketsChanges where
  detector := .nothing (by decide)
  selector := .nothing (by decide)
  compressor := .nothing (by decide)
  segmenter := .once [_] [] rfl rfl (by decide) (.object
    { logWindowLines := .nothing (by decide)
      procedureMaxSize := .nothing (by decide)
      defaultMaxSize := .nothing (by decide)
      mixedMaxSize := .nothing (by decide)
      stepPattern := .nothing (by decide)
      hardLimitFactor := .once [] [_] rfl rfl (by decide) (Word.int (w := 5))
      extractionRules := .once [_] [] rfl rfl (by decide)
        (.array (.cons (.object ticketsRuleIn) .nil)) })

/- The literals are spelled out before the text is read. -/
theorem ticketsRead : Document.read ticketsText = some (.object ticketsMembers) :=
  calc Document.read ticketsText
    _ = Document.read (_ ++ _) := congrArg Document.read (String.toList_append.trans
          (congrArg₂ (· ++ ·) String.toList_ofList String.toList_ofList))
    _ = some (.object ticketsMembers) := by cbv

theorem ticketsReplaceDefaults :
    Document.read ticketsText = some (.object ticketsMembers) ∧
      ticketsChanges.applied.check = .ok () ∧ read ticketsText = .ok ticketsChanges.applied := by
  have accepted : ticketsChanges.applied.check = .ok () := by decide +kernel
  have changes := changesReplaceDefaults.1 ticketsText ticketsMembers ticketsChanges ticketsRead ticketsIn
  exact ⟨ticketsRead, accepted, changes.1 accepted⟩

end Config

end Intake
