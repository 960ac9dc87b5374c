import Intake.Json.Numeral

/-! Whole numbers in plain decimal: the digits that a number is written with are read as this
number, and only zero begins with the digit zero. -/
namespace Intake.Json

def digitValue (c : Char) : Nat := c.toNat - '0'.toNat

theorem takeAll {cs : List Char} (digits : ∀ c ∈ cs, c.isDigit = true) :
    takeDigits cs = (cs.map digitValue, []) := by
  induction cs with
  | nil => rfl
  | cons c cs ih =>
    have here : digit? c = some (digitValue c) := if_pos (digits c List.mem_cons_self)
    rw [takeDigits, here, ih fun d member => digits d (List.mem_cons_of_mem _ member)]
    rfl

theorem valueOfDigits (cs : List Char) :
    decimalValue (cs.map digitValue) = Nat.ofDigitChars 10 cs 0 := by
  rw [decimalValue, List.foldl_map, Nat.ofDigitChars_eq_foldl]
  simp only [digitValue, Nat.mul_comm]

theorem leadingDigit {n : Nat} (positive : 0 < n) :
    ∃ c rest, Nat.toDigits 10 n = c :: rest ∧ digitValue c ≠ 0 := by
  induction n using Nat.strongRecOn with
  | ind n ih =>
    by_cases small : n < 10
    · refine ⟨n.digitChar, [], Nat.toDigits_of_lt_base small, ?_⟩
      have value : n.digitChar.toNat = 48 + n := Nat.toNat_digitChar_of_lt_ten small
      show n.digitChar.toNat - 48 ≠ 0
      omega
    · obtain ⟨c, rest, first, leading⟩ := ih (n / 10) (by omega) (by omega)
      refine ⟨c, rest ++ [(n % 10).digitChar], ?_, leading⟩
      rw [Nat.toDigits_of_base_le (by decide) (by omega), first, List.cons_append]

/- Nothing but zero itself is written with a leading zero, so the grammar admits every number. -/
theorem readDecimal (n : Nat) :
    ∃ digits, Numeral.readWhole n.repr.toList = some (digits, []) ∧ decimalValue digits = n := by
  refine ⟨(Nat.toDigits 10 n).map digitValue, ?_, ?_⟩
  · have taken : takeDigits (Nat.toDigits 10 n) = _ := takeAll fun c member =>
      Nat.isDigit_of_mem_toDigits (by decide) (by decide) member
    rw [Nat.toList_repr, Numeral.readWhole, taken]
    rcases Nat.eq_zero_or_pos n with rfl | positive
    · rfl
    · obtain ⟨c, rest, written, leading⟩ := leadingDigit positive
      rw [written, List.map_cons]
      split
      · rename_i none
        cases none
      · rename_i zero
        injection zero with digits
        injection digits with first
        exact absurd first leading
      · rfl
  · rw [valueOfDigits, Nat.ofDigitChars_ten_toDigits]

end Intake.Json
