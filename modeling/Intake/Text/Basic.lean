import Intake.Unicode.Blank

/-! Texts as lists of characters, measured in the bytes of their UTF-8 form. A span is a
range of byte positions; it lies within a text when both ends fall between characters. -/
namespace Intake
open Unicode (isBlank)

abbrev Text := List Char

structure Span where
  start : Nat
  stop : Nat
  deriving DecidableEq, Repr

namespace Span

def size (s : Span) : Nat := s.stop - s.start

def shift (distance : Nat) (s : Span) : Span := ⟨s.start + distance, s.stop + distance⟩

/- Earlier starts come first, of equal starts the earlier end. -/
def ordered (a b : Span) : Bool :=
  decide (a.start < b.start) || (a.start == b.start && decide (a.stop ≤ b.stop))

theorem orderedTotal (a b : Span) : (ordered a b || ordered b a) = true := by
  simp only [ordered, Bool.or_eq_true, Bool.and_eq_true, decide_eq_true_eq, beq_iff_eq]; omega

theorem orderedTrans (a b c : Span) (ab : ordered a b = true) (bc : ordered b c = true) :
    ordered a c = true := by
  simp only [ordered, Bool.or_eq_true, Bool.and_eq_true, decide_eq_true_eq, beq_iff_eq] at *; omega

end Span

namespace Text

def size : Text → Nat
  | [] => 0
  | c :: rest => c.utf8Size + size rest

@[simp] theorem sizeNil : size [] = 0 := rfl

@[simp] theorem sizeCons (c : Char) (t : Text) : size (c :: t) = c.utf8Size + size t := rfl

@[simp] theorem sizeAppend (a b : Text) : size (a ++ b) = size a + size b := by
  induction a with
  | nil => simp
  | cons c a ih => simp [ih]; omega

theorem charPositive (c : Char) : 0 < c.utf8Size := Char.utf8Size_pos c

theorem sizeZero {t : Text} (h : size t = 0) : t = [] := by
  cases t with
  | nil => rfl
  | cons c t => have := charPositive c; simp at h; omega

/- What is left after so many bytes, and what stands before. -/
def skip : Nat → Text → Text
  | 0, t => t
  | _, [] => []
  | n, c :: rest => skip (n - c.utf8Size) rest

def first : Nat → Text → Text
  | _, [] => []
  | n, c :: rest => if 0 < n ∧ c.utf8Size ≤ n then c :: first (n - c.utf8Size) rest else []

@[simp] theorem skipZero (t : Text) : skip 0 t = t := by cases t <;> rfl

@[simp] theorem skipAppend (a b : Text) : skip (size a) (a ++ b) = b := by
  induction a with
  | nil => simp
  | cons c a ih =>
    have positive := charPositive c
    obtain ⟨n, hn⟩ := Nat.exists_eq_succ_of_ne_zero (n := c.utf8Size + size a) (by omega)
    have back : n + 1 - c.utf8Size = size a := by omega
    simp only [List.cons_append, sizeCons, hn, skip, back, ih]

@[simp] theorem firstZero (t : Text) : first 0 t = [] := by cases t <;> simp [first]

@[simp] theorem firstAppend (a b : Text) : first (size a) (a ++ b) = a := by
  induction a with
  | nil => simp
  | cons c a ih =>
    have positive := charPositive c
    have fits : 0 < c.utf8Size + size a ∧ c.utf8Size ≤ c.utf8Size + size a := by omega
    simp only [List.cons_append, sizeCons, first, fits, and_self, if_true, Nat.add_sub_cancel_left, ih]

def slice (t : Text) (s : Span) : Text := first s.size (skip s.start t)

def Within (t : Text) (s : Span) : Prop :=
  ∃ before inside after, t = before ++ inside ++ after ∧
    s.start = size before ∧ s.stop = size before + size inside

theorem sliceWithin {t before inside after : Text} {s : Span} (whole : t = before ++ inside ++ after)
    (start : s.start = size before) (stop : s.stop = size before + size inside) :
    t.slice s = inside := by
  simp [slice, Span.size, whole, start, stop]

def Blank (t : Text) : Prop := ∀ c ∈ t, isBlank c = true

instance (t : Text) : Decidable (Blank t) := List.decidableBAll (fun c => isBlank c = true) t

theorem blankAppend {a b : Text} : Blank (a ++ b) ↔ Blank a ∧ Blank b := by
  simp only [Blank, List.mem_append]
  exact ⟨fun h => ⟨fun c hc => h c (.inl hc), fun c hc => h c (.inr hc)⟩,
    fun h c hc => hc.elim (h.1 c) (h.2 c)⟩

/- The blank characters that a text opens with. -/
def lead (t : Text) : Text := t.takeWhile isBlank

end Text

end Intake
