import Intake.Text.Basic

/-! Texts cut at separators: lines at newlines, words at blanks. Cutting keeps empty fields,
so joining the lines with newlines gives the text back; words leave them out. -/
namespace Intake.Text
open Unicode (isBlank)

def fields (separates : Char → Bool) : Text → List Text
  | [] => [[]]
  | c :: rest =>
    if separates c then [] :: fields separates rest
    else match fields separates rest with
      | [] => [[c]]
      | field :: others => (c :: field) :: others

def isNewline (c : Char) : Bool := c == '\n'

def lines (t : Text) : List Text := fields isNewline t

def words (t : Text) : List Text := (fields isBlank t).filter (fun w => !w.isEmpty)

def firstLine (t : Text) : Text := t.takeWhile (fun c => !isNewline c)

def joinLines : List Text → Text
  | [] => []
  | [line] => line
  | line :: rest => line ++ '\n' :: joinLines rest

/- Where each of consecutive lines stands when the first begins at a given position;
a newline takes one byte and belongs to no line. -/
def lineSpans (start : Nat) : List Text → List Span
  | [] => []
  | line :: rest => ⟨start, start + size line⟩ :: lineSpans (start + size line + 1) rest

theorem fieldsNonempty (separates : Char → Bool) (t : Text) : fields separates t ≠ [] := by
  cases t with
  | nil => simp [fields]
  | cons c t =>
    unfold fields
    split
    · simp
    · split <;> simp

theorem joinLinesLines (t : Text) : joinLines (lines t) = t := by
  unfold lines
  induction t with
  | nil => rfl
  | cons c t ih =>
    unfold fields
    split
    · rename_i newline
      have : c = '\n' := by simpa [isNewline] using newline
      subst this
      cases h : fields isNewline t with
      | nil => exact absurd h (fieldsNonempty _ _)
      | cons l ls => rw [h] at ih; simp [joinLines, ih]
    · cases h : fields isNewline t with
      | nil => exact absurd h (fieldsNonempty _ _)
      | cons l ls =>
        rw [h] at ih
        cases ls <;> simpa [joinLines] using ih

theorem fieldClean {separates : Char → Bool} {t field : Text} (h : field ∈ fields separates t) :
    ∀ c ∈ field, separates c = false := by
  induction t generalizing field with
  | nil => simp [fields] at h; simp [h]
  | cons c t ih =>
    unfold fields at h
    split at h
    · rcases List.mem_cons.1 h with rfl | h
      · simp
      · exact ih h
    · rename_i keeps
      split at h
      · simp at h; subst h; simpa using keeps
      · rename_i same
        rcases List.mem_cons.1 h with rfl | h
        · intro d hd
          rcases List.mem_cons.1 hd with rfl | hd
          · simpa using keeps
          · exact ih (by rw [same]; exact List.mem_cons_self) d hd
        · exact ih (by rw [same]; exact List.mem_cons_of_mem _ h)

theorem lineSpansLength (start : Nat) (ls : List Text) :
    (lineSpans start ls).length = ls.length := by
  induction ls generalizing start with
  | nil => rfl
  | cons l ls ih => simp [lineSpans, ih]

end Intake.Text
