import Intake.Unicode.Run

/-! Blank characters: the property White_Space. The separators U+001C to U+001F, the
zero-width space and the byte order mark are not blank. -/
namespace Intake.Unicode

def blankRuns : List Run :=
  [⟨0x9, 0xD, 1⟩, ⟨0x20, 0x20, 1⟩, ⟨0x85, 0x85, 1⟩, ⟨0xA0, 0xA0, 1⟩, ⟨0x1680, 0x1680, 1⟩,
   ⟨0x2000, 0x200A, 1⟩, ⟨0x2028, 0x2029, 1⟩, ⟨0x202F, 0x202F, 1⟩, ⟨0x205F, 0x205F, 1⟩,
   ⟨0x3000, 0x3000, 1⟩]

def isBlank (c : Char) : Bool := covers c.toNat blankRuns

@[simp] theorem blankNewline : isBlank '\n' = true := by decide

@[simp] theorem blankSpace : isBlank ' ' = true := by decide

@[simp] theorem blankTab : isBlank '\t' = true := by decide

theorem blankOfWhitespace {c : Char} (h : c.isWhitespace = true) : isBlank c = true := by
  simp only [Char.isWhitespace, Bool.or_eq_true, decide_eq_true_eq] at h
  rcases h with ((rfl | rfl) | rfl) | rfl <;> decide

end Intake.Unicode
