import Intake.Text.Lines

/-! Joined lines. Lines that hold no newline are what their joined text is cut into again, and
its words and blank lines are those of the lines. -/
namespace Intake.Text
open Unicode (isBlank)

/- A text that no newline interrupts. -/
def OneLine (t : Text) : Prop := ∀ c ∈ t, isNewline c = false

instance (t : Text) : Decidable (OneLine t) := List.decidableBAll (fun c => isNewline c = false) t

/- Lines each of which a newline ends. -/
def ended (ls : List Text) : Text := ls.flatMap (· ++ ['\n'])

@[simp] theorem endedNil : ended [] = [] := rfl

@[simp] theorem endedCons (l : Text) (ls : List Text) : ended (l :: ls) = l ++ '\n' :: ended ls := by
  simp [ended]

theorem joinLinesCons (l : Text) {ls : List Text} (more : ls ≠ []) :
    joinLines (l :: ls) = l ++ '\n' :: joinLines ls := by
  cases ls with
  | nil => exact absurd rfl more
  | cons => rfl

theorem joinLinesOpens (l : Text) (ls : List Text) : ∃ after, joinLines (l :: ls) = l ++ after := by
  cases ls with
  | nil => exact ⟨[], (List.append_nil l).symm⟩
  | cons => exact ⟨_, rfl⟩

theorem joinLinesAppend (a : List Text) {b : List Text} (more : b ≠ []) :
    joinLines (a ++ b) = ended a ++ joinLines b := by
  induction a with
  | nil => rfl
  | cons l a ih =>
    rw [List.cons_append, joinLinesCons l (by simp [more]), ih, endedCons, List.append_assoc,
      List.cons_append]

theorem joinLinesEnded {ls : List Text} (some : ls ≠ []) : ended ls = joinLines ls ++ ['\n'] := by
  induction ls with
  | nil => exact absurd rfl some
  | cons l ls ih =>
    by_cases more : ls = []
    · subst more; simp [joinLines]
    · rw [joinLinesCons l more, endedCons, ih more, List.append_assoc, List.cons_append]

theorem sizeEnded (l : Text) (ls : List Text) :
    size (ended (l :: ls)) = size l + 1 + size (ended ls) := by
  have newline : ('\n').utf8Size = 1 := rfl
  rw [endedCons, sizeAppend, sizeCons, newline, Nat.add_assoc]

/- Lines behind others stand where those end. -/
theorem lineSpansAppend (start : Nat) (front ls : List Text) : lineSpans start (front ++ ls) =
    lineSpans start front ++ lineSpans (start + size (ended front)) ls := by
  induction front generalizing start with
  | nil => rfl
  | cons l front ih =>
    have reached : start + size l + 1 + size (ended front) = start + size (ended (l :: front)) := by
      rw [sizeEnded]; omega
    rw [List.cons_append, lineSpans, ih, reached, lineSpans, List.cons_append]

/- Either all entries are as told, or one is the first that is not. -/
theorem allOrFirst {α : Type} {p : α → Prop} [DecidablePred p] (xs : List α) :
    (∀ x ∈ xs, p x) ∨ ∃ lead x rest, xs = lead ++ x :: rest ∧ (∀ y ∈ lead, p y) ∧ ¬ p x := by
  induction xs with
  | nil => exact .inl (by simp)
  | cons x xs ih =>
    by_cases here : p x
    · rcases ih with all | ⟨lead, y, rest, rfl, before, fails⟩
      · exact .inl (List.forall_mem_cons.mpr ⟨here, all⟩)
      · exact .inr ⟨x :: lead, y, rest, rfl, List.forall_mem_cons.mpr ⟨here, before⟩, fails⟩
    · exact .inr ⟨[], x, xs, rfl, by simp, here⟩

/- The fields on either side of a separator are those of the text on that side. -/
theorem fieldsAppend {separates : Char → Bool} (a : Text) {c : Char} (b : Text)
    (ends : separates c = true) :
    fields separates (a ++ c :: b) = fields separates a ++ fields separates b := by
  induction a with
  | nil => simp [fields, ends]
  | cons d a ih =>
    by_cases cut : separates d = true
    · simp [fields, cut, ih]
    · cases h : fields separates a with
      | nil => exact absurd h (fieldsNonempty _ _)
      | cons field others => simp [fields, cut, ih, h]

theorem fieldsAlone {separates : Char → Bool} {field : Text}
    (clean : ∀ d ∈ field, separates d = false) : fields separates field = [field] := by
  induction field with
  | nil => rfl
  | cons d field ih =>
    have keeps : separates d = false := clean d List.mem_cons_self
    have next := ih (fun e he => clean e (List.mem_cons_of_mem _ he))
    simp [fields, keeps, next]

theorem linesJoinLines {ls : List Text} (some : ls ≠ []) (clean : ∀ l ∈ ls, OneLine l) :
    lines (joinLines ls) = ls := by
  induction ls with
  | nil => exact absurd rfl some
  | cons l ls ih =>
    have first := clean l List.mem_cons_self
    by_cases more : ls = []
    · subst more; exact fieldsAlone first
    · rw [joinLinesCons l more, lines, fieldsAppend l _ rfl, fieldsAlone first]
      exact congrArg (l :: ·) (ih more (fun k hk => clean k (List.mem_cons_of_mem _ hk)))

/- Lines that are joined open with the first of them. -/
theorem firstJoined {l : Text} {ls : List Text} (clean : OneLine l) :
    firstLine (joinLines (l :: ls)) = l := by
  have keeps : ∀ c ∈ l, (!isNewline c) = true := fun c hc => by rw [clean c hc]; rfl
  by_cases more : ls = []
  · subst more
    have whole := @List.takeWhile_append_of_pos _ _ l [] keeps
    rwa [List.append_nil, List.takeWhile_nil, List.append_nil] at whole
  · rw [joinLinesCons l more, firstLine, List.takeWhile_append_of_pos keeps]
    exact List.append_nil l

theorem wordsJoinLines (ls : List Text) : words (joinLines ls) = ls.flatMap words := by
  induction ls with
  | nil => rfl
  | cons l ls ih =>
    by_cases more : ls = []
    · subst more; simp [joinLines]
    · rw [joinLinesCons l more, List.flatMap_cons, ← ih, words, fieldsAppend l _ (by decide),
        List.filter_append]
      rfl

theorem wordsBlank {t : Text} (blank : Blank t) : words t = [] := by
  have fieldsBlank : (fields isBlank t).filter (fun w => !w.isEmpty) = [] := by
    induction t with
    | nil => rfl
    | cons c t ih =>
      have first : isBlank c = true := blank c List.mem_cons_self
      rw [fields, if_pos first]
      exact ih (fun d hd => blank d (List.mem_cons_of_mem _ hd))
  exact fieldsBlank

/- What blank lines have nothing of is had by the other lines alone. -/
theorem flatMapVisible {α : Type} {f : Text → List α} (none : ∀ l, Blank l → f l = [])
    (ls : List Text) : ls.flatMap f = (ls.filter (fun l => decide (¬ Blank l))).flatMap f := by
  induction ls with
  | nil => rfl
  | cons l ls ih =>
    by_cases blank : Blank l
    · rw [List.filter_cons_of_neg (by simpa using blank), List.flatMap_cons, none l blank,
        List.nil_append, ih]
    · rw [List.filter_cons_of_pos (by simpa using blank), List.flatMap_cons, List.flatMap_cons, ih]

/- Lines in another order make up the same characters. -/
theorem joinLinesPerm {ls ks : List Text} (same : ls.Perm ks) : (joinLines ls).Perm (joinLines ks) := by
  by_cases none : ls = []
  · subst none
    rw [same.nil_eq]
  · have others : ks ≠ [] := fun empty => none (empty ▸ same).eq_nil
    have endedPerm : (ended ls).Perm (ended ks) := same.flatMap_right _
    rw [joinLinesEnded none, joinLinesEnded others] at endedPerm
    exact (List.perm_append_right_iff _).1 endedPerm

theorem linesClean {t l : Text} (h : l ∈ t.lines) : OneLine l := fieldClean h

theorem linesNonempty (t : Text) : t.lines ≠ [] := fieldsNonempty isNewline t

theorem blankNewline : Blank ['\n'] := by decide

theorem blankEnded {ls : List Text} : Blank (ended ls) ↔ ∀ l ∈ ls, Blank l := by
  induction ls with
  | nil => simp [Blank]
  | cons l ls ih =>
    rw [endedCons, ← List.singleton_append, blankAppend, blankAppend, ih]
    simp [blankNewline]

theorem blankJoinLines {ls : List Text} : Blank (joinLines ls) ↔ ∀ l ∈ ls, Blank l := by
  by_cases none : ls = []
  · subst none; simp [joinLines, Blank]
  · rw [← blankEnded, joinLinesEnded none, blankAppend]
    simp [blankNewline]

end Intake.Text
