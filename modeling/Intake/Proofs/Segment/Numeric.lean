import Intake.Proofs.Decimal
import Intake.Segment.Numeric

/-! Captured text as a value. A grammar says which texts are integers and which are decimals, and what
they stand for; the readers find exactly these. An integer that fits a word is stored as one and a
decimal in the range of floats as a float, but only if it has a point: this is all that sets what is
stored apart from what reads as a number. -/
namespace Intake.Numeric
open Json (Value)
open Decimal (scaled rangeEnd scaledFinite finiteNegated)

def number (ds : Text) : Nat := Nat.ofDigitChars 10 ds 0

def AllDigits (t : Text) : Prop := ∀ c ∈ t, c.isDigit = true

inductive Sign : Bool → Text → Prop where
  | bare : Sign false []
  | plus : Sign false ['+']
  | minus : Sign true ['-']

inductive Integer : Text → Int → Prop where
  | digits {negative s ds} (sign : Sign negative s) (some : ds ≠ []) (all : AllDigits ds) :
      Integer (s ++ ds) (if negative then -(number ds : Int) else number ds)

inductive Power : Text → Int → Prop where
  | absent : Power [] 0
  | marked {e t n} (mark : e = 'e' ∨ e = 'E') (power : Integer t n) : Power (e :: t) n

/- The digits before the point and behind it, and how they are written; one side may be empty. -/
inductive Places : Text → Text → Text → Prop where
  | whole {ds} (some : ds ≠ []) (all : AllDigits ds) : Places ds [] ds
  | pointed {ds fs} (some : ds ++ fs ≠ []) (all : AllDigits ds) (rest : AllDigits fs) :
      Places ds fs (ds ++ '.' :: fs)

/- Decimals, with the sign, the digits as one number, and the power of ten it is to be scaled by. -/
inductive Scientific : Text → Bool → Nat → Int → Prop where
  | decimal {negative s ds fs m p n} (sign : Sign negative s) (places : Places ds fs m)
      (power : Power p n) :
      Scientific (s ++ (m ++ p)) negative (number (ds ++ fs)) (n - fs.length)

/- Integers that fit a word. -/
def WordInteger (t : Text) (n : Int) : Prop :=
  Integer t n ∧ Int64.minValue.toInt ≤ n ∧ n ≤ Int64.maxValue.toInt

/- Decimals whose size is in the range of floats. -/
def FiniteFloat (t : Text) (x : Float) : Prop :=
  ∃ negative significand exponent, Scientific t negative significand exponent ∧
    (significand : ℚ) * 10 ^ exponent < rangeEnd ∧
    x = if negative then -scaled significand exponent else scaled significand exponent

/- A text as an integer if it is one, or else as a float if it is one and is admitted, or else as it
stands. Where any text is admitted, every number is stored as one. -/
inductive Typed (admitted : Text → Prop) (t : Text) : Value → Prop where
  | integer {n} (written : WordInteger t n) : Typed admitted t (.int n)
  | float {x} (other : ∀ n, ¬ WordInteger t n) (admits : admitted t) (written : FiniteFloat t x) :
      Typed admitted t (.float x)
  | text (other : ∀ n, ¬ WordInteger t n) (neither : admitted t → ∀ x, ¬ FiniteFloat t x) :
      Typed admitted t (.string (String.ofList t))

section Readers

theorem digitsNumber (ds : Text) : digitsValue ds = number ds := by
  rw [digitsValue, number, Nat.ofDigitChars_eq_foldl]
  simp only [Nat.mul_comm]

theorem naturalIff {t : Text} {n : Nat} :
    natural? t = some n ↔ t ≠ [] ∧ AllDigits t ∧ number t = n := by
  unfold natural?
  rw [digitsNumber]
  split
  · rename_i refused
    simp only [reduceCtorEq, false_iff, AllDigits, ← List.all_eq_true]
    rintro ⟨some, all, -⟩
    simp [some, all] at refused
  · rename_i accepted
    simp only [List.isEmpty_iff, Bool.not_eq_true', not_or, Bool.not_eq_false,
      List.all_eq_true] at accepted
    have all : AllDigits t := accepted.2
    simp [accepted.1, all]

/- What a sign is taken from begins with none itself. -/
def Unsigned (t : Text) : Prop := ∀ c ∈ t.head?, c ≠ '-' ∧ c ≠ '+'

theorem unsignedDigit {c : Char} {t : Text} (digit : c.isDigit = true) : Unsigned (c :: t) := by
  rintro d hd
  cases hd
  constructor <;> rintro rfl <;> cases digit

theorem signRead (t : Text) : ∃ s, Sign (sign t).1 s ∧ t = s ++ (sign t).2 := by
  unfold sign
  split
  · exact ⟨['-'], .minus, rfl⟩
  · exact ⟨['+'], .plus, rfl⟩
  · exact ⟨[], .bare, rfl⟩

theorem signFound {negative : Bool} {s t : Text} (written : Sign negative s) (none : Unsigned t) :
    sign (s ++ t) = (negative, t) := by
  cases written with
  | plus | minus => rfl
  | bare =>
    rw [List.nil_append]
    unfold sign
    split
    · exact absurd rfl (none '-' rfl).1
    · exact absurd rfl (none '+' rfl).2
    · rfl

theorem integerRead {t : Text} {n : Int} :
    Integer t n ↔
      ∃ m, natural? (sign t).2 = some m ∧ n = if (sign t).1 = true then -(m : Int) else m := by
  constructor
  · rintro ⟨written, some, all⟩
    rename_i negative s ds
    have unsigned : Unsigned ds := by
      obtain ⟨d, more, rfl⟩ := List.exists_cons_of_ne_nil some
      exact unsignedDigit (all d List.mem_cons_self)
    rw [signFound written unsigned]
    exact ⟨number ds, naturalIff.2 ⟨some, all, rfl⟩, rfl⟩
  · rintro ⟨m, read, rfl⟩
    obtain ⟨s, written, whole⟩ := signRead t
    obtain ⟨some, all, rfl⟩ := naturalIff.1 read
    have integer := Integer.digits written some all
    rwa [← whole] at integer

theorem integerIff {t : Text} {n : Int} : integer? t = some n ↔ WordInteger t n := by
  rw [WordInteger, integerRead]
  unfold integer?
  simp only [Option.bind_eq_bind, Option.bind_eq_some_iff, Option.ite_none_right_eq_some,
    Option.some.injEq]
  constructor
  · rintro ⟨m, read, range, rfl⟩
    exact ⟨⟨m, read, rfl⟩, range⟩
  · rintro ⟨⟨m, read, rfl⟩, range⟩
    exact ⟨m, read, range, rfl⟩

theorem exponentIff {t : Text} {n : Int} : exponent? t = some n ↔ Power t n := by
  cases t with
  | nil =>
    rw [exponent?, Option.some.injEq]
    constructor
    · rintro rfl
      exact .absent
    · rintro ⟨⟩
      rfl
  | cons e t =>
    rw [exponent?, Option.ite_none_right_eq_some]
    simp only [Option.bind_eq_bind, Option.bind_eq_some_iff, Option.some.injEq]
    constructor
    · rintro ⟨mark, m, read, rfl⟩
      exact .marked mark (integerRead.2 ⟨m, read, rfl⟩)
    · intro written
      cases written with
      | marked mark power =>
        obtain ⟨m, read, same⟩ := integerRead.1 power
        exact ⟨mark, m, read, same.symm⟩

/- The digits behind a point, and what follows them. -/
def fraction : Text → Text × Text
  | '.' :: t => t.span Char.isDigit
  | t => ([], t)

theorem floatParts (t : Text) :
    float? t =
      let (whole, behind) := (sign t).2.span Char.isDigit
      let (fs, rest) := fraction behind
      if whole.isEmpty ∧ fs.isEmpty then none
      else (exponent? rest).bind (fun n =>
        some (if (sign t).1 then -scaled (digitsValue (whole ++ fs)) (n - fs.length)
          else scaled (digitsValue (whole ++ fs)) (n - fs.length))) := rfl

theorem fractionRead {ds t : Text} (all : AllDigits ds) (some : ds ++ (fraction t).1 ≠ []) :
    ∃ m, Places ds (fraction t).1 m ∧ ds ++ t = m ++ (fraction t).2 := by
  unfold fraction at some ⊢
  split at some
  · rename_i t
    rw [List.span_eq_takeWhile_dropWhile] at some ⊢
    refine ⟨_, .pointed some all fun c hc => List.mem_takeWhile_imp hc, ?_⟩
    rw [List.append_assoc, List.cons_append, List.takeWhile_append_dropWhile]
  · rw [List.append_nil] at some
    exact ⟨ds, .whole some all, rfl⟩

theorem spanDigits {ds rest : Text} (all : AllDigits ds)
    (ends : ∀ c ∈ rest.head?, c.isDigit = false) : (ds ++ rest).span Char.isDigit = (ds, rest) := by
  have tail : rest.takeWhile Char.isDigit = [] ∧ rest.dropWhile Char.isDigit = rest := by
    cases rest with
    | nil => exact ⟨rfl, rfl⟩
    | cons c rest => simp [ends c rfl]
  rw [List.span_eq_takeWhile_dropWhile, List.takeWhile_append_of_pos all,
    List.dropWhile_append_of_pos all, tail.1, tail.2, List.append_nil]

theorem fractionFound {ds fs m rest : Text} (places : Places ds fs m)
    (ends : ∀ c ∈ rest.head?, c.isDigit = false ∧ c ≠ '.') :
    ∃ behind, (m ++ rest).span Char.isDigit = (ds, behind) ∧ fraction behind = (fs, rest) := by
  cases places with
  | whole some all =>
    refine ⟨rest, spanDigits all fun c hc => (ends c hc).1, ?_⟩
    unfold fraction
    split
    · exact absurd rfl (ends '.' rfl).2
    · rfl
  | pointed some all more =>
    refine ⟨'.' :: (fs ++ rest), ?_, spanDigits more fun c hc => (ends c hc).1⟩
    rw [List.append_assoc, List.cons_append]
    refine spanDigits all ?_
    rintro c hc
    cases hc
    rfl

theorem powerEnds {p : Text} {n : Int} (power : Power p n) :
    ∀ c ∈ p.head?, c.isDigit = false ∧ c ≠ '.' := by
  rintro c hc
  cases power with
  | absent => cases hc
  | marked mark =>
    cases hc
    rcases mark with rfl | rfl <;> exact ⟨rfl, by decide⟩

theorem placesUnsigned {ds fs m : Text} (places : Places ds fs m) (rest : Text) :
    Unsigned (m ++ rest) := by
  have front : ∀ {ds rest : Text}, AllDigits ds → Unsigned rest → Unsigned (ds ++ rest) := by
    intro ds rest all unsigned
    cases ds with
    | nil => exact unsigned
    | cons d ds => exact unsignedDigit (all d List.mem_cons_self)
  cases places with
  | whole some all =>
    obtain ⟨d, more, rfl⟩ := List.exists_cons_of_ne_nil some
    exact unsignedDigit (all d List.mem_cons_self)
  | pointed some all more =>
    rw [List.append_assoc]
    refine front all ?_
    rintro c hc
    cases hc
    decide

theorem placesSome {ds fs m : Text} (places : Places ds fs m) : ds ++ fs ≠ [] := by
  cases places with
  | whole some => rwa [List.append_nil]
  | pointed some => exact some

/- The decimals that are read are those that are written. -/
theorem floatIff {t : Text} {x : Float} :
    float? t = some x ↔ ∃ negative significand exponent,
      Scientific t negative significand exponent ∧
        x = if negative = true then -scaled significand exponent else scaled significand exponent := by
  constructor
  · intro read
    obtain ⟨s, signed, whole⟩ := signRead t
    rw [floatParts] at read
    simp only [List.span_eq_takeWhile_dropWhile, Option.ite_none_left_eq_some,
      Option.bind_eq_some_iff, Option.some.injEq] at read
    obtain ⟨some, n, power, rfl⟩ := read
    have digits : AllDigits ((sign t).2.takeWhile Char.isDigit) :=
      fun c hc => List.mem_takeWhile_imp hc
    obtain ⟨m, places, cut⟩ := fractionRead digits (t := (sign t).2.dropWhile Char.isDigit)
      (by simpa using some)
    rw [List.takeWhile_append_dropWhile] at cut
    rw [digitsNumber]
    refine ⟨_, _, _, ?_, rfl⟩
    have written := Scientific.decimal signed places (exponentIff.1 power)
    rwa [← cut, ← whole] at written
  · rintro ⟨negative, significand, exponent, written, rfl⟩
    cases written with
    | decimal signed places power =>
      rename_i s ds fs m p n
      obtain ⟨behind, span, cut⟩ := fractionFound places (powerEnds power)
      have some : ¬ (ds.isEmpty = true ∧ fs.isEmpty = true) := by
        simpa using placesSome places
      rw [floatParts, signFound signed (placesUnsigned places p)]
      simp only [span, cut, some, if_false, exponentIff.2 power, Option.bind_some, digitsNumber]

theorem finiteFloatIff {t : Text} {x : Float} :
    float? t = some x ∧ x.isFinite = true ↔ FiniteFloat t x := by
  rw [floatIff]
  constructor
  · rintro ⟨⟨negative, significand, exponent, written, rfl⟩, finite⟩
    refine ⟨negative, significand, exponent, written, ?_, rfl⟩
    rw [← scaledFinite]
    split at finite
    · rwa [finiteNegated] at finite
    · exact finite
  · rintro ⟨negative, significand, exponent, written, range, rfl⟩
    refine ⟨⟨negative, significand, exponent, written, rfl⟩, ?_⟩
    rw [← scaledFinite] at range
    split
    · rwa [finiteNegated]
    · exact range

end Readers

section Stored

theorem integerPointless {t : Text} {n : Int} (written : Integer t n) : '.' ∉ t := by
  cases written with
  | digits signed some all =>
    intro inside
    rcases List.mem_append.1 inside with ahead | behind
    · cases signed <;> simp at ahead
    · exact absurd (all '.' behind) (by decide)

def Pointed (t : Text) : Prop := '.' ∈ t

/- A text with a point is read as a decimal only, one without as an integer only. -/
theorem valueTyped (t : Text) : Typed Pointed t (value t) := by
  unfold value
  split
  · rename_i pointed
    have pointed : '.' ∈ t := List.contains_iff_mem.1 pointed
    have other : ∀ n, ¬ WordInteger t n := fun n written => integerPointless written.1 pointed
    split
    · rename_i x read
      split
      · rename_i finite
        exact .float other pointed (finiteFloatIff.1 ⟨read, finite⟩)
      · rename_i infinite
        refine .text other fun _ y written => infinite ?_
        obtain ⟨same, finite⟩ := finiteFloatIff.2 written
        cases read.symm.trans same
        exact finite
    · rename_i unread
      refine .text other fun _ y written => ?_
      cases unread.symm.trans (finiteFloatIff.2 written).1
  · rename_i pointless
    split
    · rename_i n read
      exact .integer (integerIff.1 read)
    · rename_i unread
      have unpointed : ¬ Pointed t := fun inside => pointless (List.contains_iff_mem.2 inside)
      refine .text (fun n written => ?_) fun inside => absurd inside unpointed
      cases unread.symm.trans (integerIff.2 written)

/- What is stored is what the text reads as, unless that is a decimal without a point. -/
theorem valueReads (t : Text) :
    Typed (fun _ => True) t (value t) ↔
      Pointed t ∨ (∃ n, WordInteger t n) ∨ ∀ x, ¬ FiniteFloat t x := by
  have stored := valueTyped t
  generalize value t = v at stored ⊢
  constructor
  · intro reads
    by_contra other
    rw [not_or, not_or] at other
    obtain ⟨pointless, unwhole, decimal⟩ := other
    cases stored with
    | integer written => exact unwhole ⟨_, written⟩
    | float _ pointed => exact pointless pointed
    | text =>
      cases reads with
      | text _ neither => exact decimal (neither trivial)
  · intro exempt
    cases stored with
    | integer written => exact .integer written
    | float other _ written => exact .float other trivial written
    | text other neither =>
      refine .text other fun _ => ?_
      rcases exempt with pointed | ⟨n, written⟩ | none
      · exact neither pointed
      · exact absurd written (other n)
      · exact none

end Stored

end Intake.Numeric
