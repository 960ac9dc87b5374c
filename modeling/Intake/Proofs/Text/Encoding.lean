import Mathlib.Algebra.GroupWithZero.Nat
import Mathlib.Tactic.SplitIfs
import Intake.Text.Encoding

/-! Bytes and texts. A character is written as an opening byte and tails, six bits of its code
point in each. Bytes are read back as long as whole characters stand in front; what comes then
is nothing, a character cut off by the end, or one that no further bytes can mend. -/
namespace Intake.Text

/- The last groups of six bits of a code point, each as a tail. -/
def tails : Nat → Nat → List UInt8
  | 0, _ => []
  | n + 1, code => UInt8.ofNat (code / 64 ^ n % 64 + 0x80) :: tails n code

namespace Unfinished

def Takes (p : Unfinished) (b : UInt8) : Prop := p.low ≤ b.toNat ∧ b.toNat ≤ p.high

def after (p : Unfinished) (b : UInt8) : Unfinished :=
  ⟨p.code * 0x40 + (b.toNat - 0x80), p.taken + 1, p.left - 1, 0x80, 0xBF⟩

/- Some tail is owed, and there are bytes that can be it. -/
structure Open (p : Unfinished) : Prop where
  owes : 0 < p.left
  low : 0x80 ≤ p.low
  range : p.low ≤ p.high
  high : p.high ≤ 0xBF

/- The code points that a character begun may still come to. -/
def Fits (p : Unfinished) (code : Nat) : Prop :=
  code / 64 ^ (p.left - 1) / 64 = p.code ∧
    p.low ≤ code / 64 ^ (p.left - 1) % 64 + 0x80 ∧ code / 64 ^ (p.left - 1) % 64 + 0x80 ≤ p.high

theorem afterOpen {p : Unfinished} (isOpen : p.Open) (more : p.left ≠ 1) (b : UInt8) :
    (p.after b).Open := by
  have owes := isOpen.owes
  constructor
  · show 0 < p.left - 1
    omega
  · exact Nat.le_refl 0x80
  · show 0x80 ≤ 0xBF
    omega
  · exact Nat.le_refl 0xBF

/- The first tail that is owed, and what is owed after it. -/
theorem fitsAfter {p : Unfinished} {n : Nat} (left : p.left = n + 2) {b : UInt8} (isOpen : p.Open)
    (takes : p.Takes b) {code : Nat} :
    (p.after b).Fits code ↔ p.Fits code ∧ UInt8.ofNat (code / 64 ^ (n + 1) % 64 + 0x80) = b := by
  have groups : code / 64 ^ n / 64 = code / 64 ^ (n + 1) := by
    rw [Nat.div_div_eq_div_mul, Nat.pow_succ]
  have low := isOpen.low
  have high := isOpen.high
  obtain ⟨above, below⟩ := takes
  have size := b.toNat_lt
  have last : (p.after b).left - 1 = n := by
    show p.left - 1 - 1 = n
    omega
  have here : p.left - 1 = n + 1 := by omega
  rw [Fits, Fits, last, here, groups, ← UInt8.toNat_inj, UInt8.toNat_ofNat']
  show _ = p.code * 64 + (b.toNat - 128) ∧ 128 ≤ _ ∧ _ ≤ 191 ↔ _
  generalize code / 64 ^ (n + 1) = x
  generalize code / 64 ^ n = y
  omega

/- Every character begun may still be finished. -/
theorem fitsSome {p : Unfinished} (isOpen : p.Open) : ∃ code, p.Fits code := by
  obtain ⟨-, low, range, high⟩ := isOpen
  refine ⟨(p.code * 64 + (p.low - 128)) * 64 ^ (p.left - 1), ?_⟩
  rw [Fits, Nat.mul_div_cancel _ (Nat.pow_pos (by omega))]
  omega

end Unfinished

theorem decodeTake {p : Unfinished} {b : UInt8} (takes : p.Takes b) (more : p.left ≠ 1)
    (rest : List UInt8) (index : Nat) :
    decodeFrom index (some p) (b :: rest) = decodeFrom index (some (p.after b)) rest := by
  rw [Unfinished.Takes] at takes
  rw [decodeFrom, if_pos takes, if_neg more]
  rfl

theorem decodeLast {p : Unfinished} {b : UInt8} (takes : p.Takes b) (last : p.left = 1)
    (rest : List UInt8) (index : Nat) :
    decodeFrom index (some p) (b :: rest) =
      (decodeFrom (index + p.taken + 1) none rest).map
        (Char.ofNat (p.code * 0x40 + (b.toNat - 0x80)) :: ·) := by
  rw [Unfinished.Takes] at takes
  rw [decodeFrom, if_pos takes, if_pos last]

/- The last tail brings in the last six bits. -/
theorem fitsLast {p : Unfinished} (isOpen : p.Open) (last : p.left = 1) {b : UInt8}
    (takes : p.Takes b) {code : Nat} :
    p.Fits code ∧ UInt8.ofNat (code % 64 + 0x80) = b ↔ code = p.code * 0x40 + (b.toNat - 0x80) := by
  have low := isOpen.low
  have high := isOpen.high
  obtain ⟨above, below⟩ := takes
  have size := b.toNat_lt
  have none : p.left - 1 = 0 := by omega
  rw [Unfinished.Fits, none, Nat.pow_zero, Nat.div_one, ← UInt8.toNat_inj, UInt8.toNat_ofNat']
  omega

theorem fitsTakes {p : Unfinished} (isOpen : p.Open) {n code : Nat} (left : p.left = n + 1)
    (fits : p.Fits code) : p.Takes (UInt8.ofNat (code / 64 ^ n % 64 + 0x80)) := by
  have high := isOpen.high
  obtain ⟨-, above, below⟩ := fits
  rw [left, Nat.add_sub_cancel] at above below
  rw [Unfinished.Takes, UInt8.toNat_ofNat', Nat.mod_eq_of_lt (by omega)]
  exact ⟨above, below⟩

/- A character begun is finished by the tails of any code point that it may come to. -/
theorem decodeTails {p : Unfinished} {n code : Nat} (left : p.left = n + 1) (isOpen : p.Open)
    (fits : p.Fits code) (rest : List UInt8) (index : Nat) :
    decodeFrom index (some p) (tails p.left code ++ rest) =
      (decodeFrom (index + p.taken + p.left) none rest).map (Char.ofNat code :: ·) := by
  have takes := fitsTakes isOpen left fits
  induction n generalizing p with
  | zero =>
    rw [Nat.pow_zero, Nat.div_one] at takes
    have reached := (fitsLast isOpen left takes).1 ⟨fits, rfl⟩
    rw [left, tails, tails, List.cons_append, List.nil_append, Nat.pow_zero, Nat.div_one,
      decodeLast takes left, ← reached]
  | succ n ih =>
    have onward := (Unfinished.fitsAfter left isOpen takes).2 ⟨fits, rfl⟩
    have opened := Unfinished.afterOpen isOpen (by omega) (UInt8.ofNat (code / 64 ^ (n + 1) % 64 + 0x80))
    have owed : (p.after (UInt8.ofNat (code / 64 ^ (n + 1) % 64 + 0x80))).left = n + 1 := by
      show p.left - 1 = n + 1
      omega
    have tail := ih owed opened onward (fitsTakes opened owed onward)
    rw [owed] at tail
    rw [left, tails, List.cons_append, decodeTake takes (by omega), tail]
    show (decodeFrom (index + (p.taken + 1) + (n + 1)) none rest).map _ = _
    rw [show index + (p.taken + 1) + (n + 1) = index + p.taken + (n + 1 + 1) by omega]

/- The marks of opening bytes, by the number of tails they announce. -/
def mark : Nat → Nat
  | 1 => 0xC0
  | 2 => 0xE0
  | _ => 0xF0

/- The code points that are written with so many tails. -/
def Spread : Nat → Nat → Prop
  | 1, code => 0x80 ≤ code ∧ code < 0x800
  | 2, code => 0x800 ≤ code ∧ code < 0x10000
  | 3, code => 0x10000 ≤ code ∧ code < 0x110000
  | _, _ => False

theorem encodeSingle {c : Char} (narrow : c.toNat < 0x80) :
    String.utf8EncodeChar c = [UInt8.ofNat c.toNat] := by
  have small : c.val.toNat ≤ 127 := Nat.le_of_lt_succ narrow
  rw [String.utf8EncodeChar, if_pos small]
  rfl

theorem encodeSpread {c : Char} {k : Nat} (spread : Spread k c.toNat) :
    String.utf8EncodeChar c = UInt8.ofNat (c.toNat / 64 ^ k + mark k) :: tails k c.toNat := by
  have value : c.val.toNat = c.toNat := rfl
  rw [String.utf8EncodeChar, value]
  generalize c.toNat = code at spread
  match k, spread with
  | 1, ⟨low, high⟩ =>
    have group : code / 64 % 32 = code / 64 := by omega
    simp only [if_neg (show ¬ code ≤ 127 by omega), if_pos (show code ≤ 2047 by omega), tails, mark,
      Nat.pow_zero, Nat.div_one, Nat.pow_one, group]
  | 2, ⟨low, high⟩ =>
    have group : code / 4096 % 16 = code / 4096 := by omega
    simp only [if_neg (show ¬ code ≤ 127 by omega), if_neg (show ¬ code ≤ 2047 by omega),
      if_pos (show code ≤ 65535 by omega), tails, mark, Nat.pow_zero, Nat.div_one, Nat.pow_one,
      Nat.reducePow, group]
  | 3, ⟨low, high⟩ =>
    have group : code / 262144 % 8 = code / 262144 := by omega
    simp only [if_neg (show ¬ code ≤ 127 by omega), if_neg (show ¬ code ≤ 2047 by omega),
      if_neg (show ¬ code ≤ 65535 by omega), tails, mark, Nat.pow_zero, Nat.div_one, Nat.pow_one,
      Nat.reducePow, group]

theorem spreadSome {c : Char} (wide : 0x80 ≤ c.toNat) : ∃ k, Spread k c.toNat := by
  have last : c.toNat < 0x110000 := by
    rcases c.valid with below | above
    · exact Nat.lt_trans below (by omega)
    · exact above.2
  by_cases two : c.toNat < 0x800
  · exact ⟨1, wide, two⟩
  by_cases three : c.toNat < 0x10000
  · exact ⟨2, Nat.le_of_not_lt two, three⟩
  · exact ⟨3, Nat.le_of_not_lt three, last⟩

/- An opening byte announces the tails of the code points that are written with it. -/
theorem openingSpread {b : Nat} {p : Unfinished} (opens : opening b = some p) :
    p.Open ∧ p.taken = 1 ∧ 0x80 ≤ b ∧ ∀ code, p.Fits code →
      code.isValidChar ∧ Spread p.left code ∧ b = code / 64 ^ p.left + mark p.left := by
  unfold opening at opens
  split_ifs at opens
  all_goals
    obtain rfl := Option.some.inj opens
    refine ⟨⟨by simp, by simp, by simp, by simp⟩, rfl, by omega, fun code fits => ?_⟩
    simp only [Unfinished.Fits, Nat.reduceSub, Nat.reducePow, Nat.div_one] at fits
    simp only [Nat.isValidChar, Spread, mark, Nat.reducePow]
    omega

/- A code point of several bytes is announced: the surrogates, which no character has, would not be. -/
theorem spreadOpening {k code : Nat} (valid : code.isValidChar) (spread : Spread k code) :
    ∃ p, opening (code / 64 ^ k + mark k) = some p ∧ p.left = k ∧ p.Fits code := by
  unfold opening
  match k, spread with
  | 1, ⟨low, high⟩ | 2, ⟨low, high⟩ | 3, ⟨low, high⟩ =>
    simp only [mark, Nat.reducePow]
    split_ifs
    -- The kinds of opening bytes that announce another number of tails are out of range.
    all_goals try omega
    all_goals
      refine ⟨_, rfl, rfl, ?_⟩
      simp only [Unfinished.Fits, Nat.reduceSub, Nat.reducePow, Nat.div_one]
      simp only [Nat.isValidChar] at valid
      omega

theorem openingSize {k code : Nat} (spread : Spread k code) : code / 64 ^ k + mark k < 256 := by
  match k, spread with
  | 1, ⟨low, high⟩ | 2, ⟨low, high⟩ | 3, ⟨low, high⟩ =>
    simp only [mark, Nat.reducePow]
    omega

theorem charOfNat {code : Nat} (valid : code.isValidChar) : (Char.ofNat code).toNat = code := by
  rw [Char.ofNat, dif_pos valid]
  rfl

theorem encodeOpens {c : Char} (wide : 0x80 ≤ c.toNat) : ∃ b p,
    String.utf8EncodeChar c = b :: tails p.left c.toNat ∧ opening b.toNat = some p ∧
      p.Fits c.toNat := by
  obtain ⟨k, spread⟩ := spreadSome wide
  obtain ⟨p, opens, rfl, fits⟩ := spreadOpening c.valid spread
  refine ⟨_, p, encodeSpread spread, ?_, fits⟩
  rwa [UInt8.toNat_ofNat', Nat.mod_eq_of_lt (openingSize spread)]

theorem opensEncode {b : UInt8} {p : Unfinished} {code : Nat} (opens : opening b.toNat = some p)
    (fits : p.Fits code) : String.utf8EncodeChar (Char.ofNat code) = b :: tails p.left code := by
  obtain ⟨-, -, -, spreads⟩ := openingSpread opens
  obtain ⟨valid, spread, byte⟩ := spreads code fits
  have value : (Char.ofNat code).toNat = code := charOfNat valid
  rw [← value] at spread byte
  rw [encodeSpread spread, ← byte, UInt8.ofNat_toNat, value]

theorem decodeOpens {b : UInt8} {p : Unfinished} (opens : opening b.toNat = some p)
    (rest : List UInt8) (index : Nat) :
    decodeFrom index none (b :: rest) = decodeFrom index (some p) rest := by
  obtain ⟨-, -, high, -⟩ := openingSpread opens
  rw [decodeFrom, if_neg (Nat.not_lt.2 high), opens]

theorem tailsLength (n code : Nat) : (tails n code).length = n := by
  induction n with
  | zero => rfl
  | succ n ih => rw [tails, List.length_cons, ih]

/- What was written for a character is read as that character. -/
theorem decodeChar (c : Char) (rest : List UInt8) (index : Nat) :
    decodeFrom index none (String.utf8EncodeChar c ++ rest) =
      (decodeFrom (index + (String.utf8EncodeChar c).length) none rest).map (c :: ·) := by
  rcases Nat.lt_or_ge c.toNat 0x80 with narrow | wide
  · have byte : (UInt8.ofNat c.toNat).toNat = c.toNat := by
      rw [UInt8.toNat_ofNat', Nat.mod_eq_of_lt (by omega)]
    rw [encodeSingle narrow, List.singleton_append, decodeFrom, byte, if_pos narrow, Char.ofNat_toNat]
    rfl
  · obtain ⟨b, p, encoded, opens, fits⟩ := encodeOpens wide
    obtain ⟨isOpen, taken, -, -⟩ := openingSpread opens
    obtain ⟨n, left⟩ := Nat.exists_eq_succ_of_ne_zero (Nat.ne_of_gt isOpen.owes)
    rw [encoded, List.cons_append, decodeOpens opens, decodeTails left isOpen fits, taken,
      Char.ofNat_toNat, List.length_cons, tailsLength, Nat.add_assoc, Nat.add_comm 1]

theorem encodeCons (c : Char) (t : Text) : encode (c :: t) = String.utf8EncodeChar c ++ encode t := rfl

theorem encodeAppend (t u : Text) : encode (t ++ u) = encode t ++ encode u := List.flatMap_append

theorem decodeText (t : Text) (rest : List UInt8) (index : Nat) :
    decodeFrom index none (encode t ++ rest) =
      (decodeFrom (index + (encode t).length) none rest).map (t ++ ·) := by
  induction t generalizing index with
  | nil => cases read : decodeFrom index none rest <;> simp [encode, read, Except.map]
  | cons c t ih =>
    rw [encodeCons, List.append_assoc, decodeChar, ih, List.length_append, Nat.add_assoc]
    cases decodeFrom (index + ((String.utf8EncodeChar c).length + (encode t).length)) none rest <;> rfl

/- Bytes that no further ones can mend. -/
def Broken (state : Option Unfinished) (bytes : List UInt8) : Prop :=
  ∃ length, ∀ more index, decodeFrom index state (bytes ++ more) = .error ⟨index, some length⟩

/- Behind a character begun come its tails, or a byte that is none, or the bytes end too soon. -/
theorem tailsOrFlaw {p : Unfinished} (isOpen : p.Open) (bytes : List UInt8) :
    (∃ code rest, p.Fits code ∧ bytes = tails p.left code ++ rest) ∨ Broken (some p) bytes ∨
      ((∀ index, decodeFrom index (some p) bytes = .error ⟨index, none⟩) ∧
        ∃ code more, more ≠ [] ∧ p.Fits code ∧ bytes ++ more = tails p.left code) := by
  obtain ⟨n, left⟩ := Nat.exists_eq_succ_of_ne_zero (Nat.ne_of_gt isOpen.owes)
  induction bytes generalizing p n with
  | nil =>
    obtain ⟨code, fits⟩ := Unfinished.fitsSome isOpen
    refine .inr (.inr ⟨fun _ => rfl, code, tails p.left code, ?_, fits, rfl⟩)
    rw [left, tails]
    exact List.cons_ne_nil _ _
  | cons b bytes ih =>
    by_cases takes : p.Takes b
    · cases n with
      | zero =>
        obtain ⟨fits, byte⟩ := (fitsLast isOpen left takes).2 rfl
        refine .inl ⟨p.code * 0x40 + (b.toNat - 0x80), bytes, fits, ?_⟩
        rw [left, tails, tails, Nat.pow_zero, Nat.div_one, byte]
        rfl
      | succ n =>
        have opened := Unfinished.afterOpen isOpen (by omega) b
        have owed : (p.after b).left = n + 1 := by
          show p.left - 1 = n + 1
          omega
        have step := decodeTake takes (by omega : p.left ≠ 1)
        have onward : ∀ {code}, (p.after b).Fits code →
            p.Fits code ∧ b :: tails (p.after b).left code = tails p.left code := by
          intro code fits
          obtain ⟨here, byte⟩ := (Unfinished.fitsAfter left isOpen takes).1 fits
          rw [left, owed]
          exact ⟨here, congrArg (· :: tails (n + 1) code) byte.symm⟩
        rcases ih opened n owed with ⟨code, rest, fits, rfl⟩ | ⟨length, broken⟩ |
          ⟨short, code, more, nonempty, fits, finished⟩
        · obtain ⟨here, whole⟩ := onward fits
          exact .inl ⟨code, rest, here, by rw [← whole]; rfl⟩
        · exact .inr (.inl ⟨length, fun more index => by rw [List.cons_append, step, broken]⟩)
        · obtain ⟨here, whole⟩ := onward fits
          refine .inr (.inr ⟨fun index => by rw [step, short], code, more, nonempty, here, ?_⟩)
          rw [List.cons_append, finished, whole]
    · refine .inr (.inl ⟨p.taken, fun more index => ?_⟩)
      rw [Unfinished.Takes] at takes
      rw [List.cons_append, decodeFrom, if_neg takes]

/- A character that the end cuts off. -/
def Short (bytes : List UInt8) : Prop :=
  (∀ index, decodeFrom index none bytes = .error ⟨index, none⟩) ∧
    ∃ c more, more ≠ [] ∧ bytes ++ more = String.utf8EncodeChar c

theorem charOrFlaw (b : UInt8) (bytes : List UInt8) :
    (∃ c rest, b :: bytes = String.utf8EncodeChar c ++ rest) ∨ Broken none (b :: bytes) ∨
      Short (b :: bytes) := by
  by_cases narrow : b.toNat < 0x80
  · refine .inl ⟨Char.ofNat b.toNat, bytes, ?_⟩
    have value : (Char.ofNat b.toNat).toNat = b.toNat := charOfNat (.inl (by omega))
    rw [encodeSingle (by rwa [value]), value, UInt8.ofNat_toNat, List.singleton_append]
  · cases opens : opening b.toNat with
    | none =>
      refine .inr (.inl ⟨1, fun more index => ?_⟩)
      rw [List.cons_append, decodeFrom, if_neg narrow, opens]
    | some p =>
      obtain ⟨isOpen, -, -, -⟩ := openingSpread opens
      rcases tailsOrFlaw isOpen bytes with ⟨code, rest, fits, rfl⟩ | ⟨length, broken⟩ |
        ⟨short, code, more, nonempty, fits, finished⟩
      · exact .inl ⟨Char.ofNat code, rest, by rw [opensEncode opens fits, List.cons_append]⟩
      · refine .inr (.inl ⟨length, fun more index => ?_⟩)
        rw [List.cons_append, decodeOpens opens, broken]
      · refine .inr (.inr ⟨fun index => by rw [decodeOpens opens, short], Char.ofNat code, more,
          nonempty, ?_⟩)
        rw [opensEncode opens fits, List.cons_append, finished]

/- All bytes are those of a text, with nothing or with a flaw behind it. -/
theorem textOrFlaw (bytes : List UInt8) :
    ∃ t rest, bytes = encode t ++ rest ∧ (rest = [] ∨ Broken none rest ∨ Short rest) := by
  match bytes with
  | [] => exact ⟨[], [], rfl, .inl rfl⟩
  | b :: bytes =>
    rcases charOrFlaw b bytes with ⟨c, rest, whole⟩ | flaw
    · have shorter : rest.length < (b :: bytes).length := by
        rw [whole, List.length_append]
        have := String.length_utf8EncodeChar c
        have := c.utf8Size_pos
        omega
      obtain ⟨t, last, rfl, flaw⟩ := textOrFlaw rest
      exact ⟨c :: t, last, by rw [whole, encodeCons, List.append_assoc], flaw⟩
    · exact ⟨[], b :: bytes, rfl, .inr flaw⟩
termination_by bytes.length
decreasing_by exact shorter

/- The bytes of some text. -/
def IsText (bytes : List UInt8) : Prop := ∃ t, encode t = bytes

/- Bytes that are not the whole of some text's. -/
def CutOff (bytes : List UInt8) : Prop := ∃ more, more ≠ [] ∧ IsText (bytes ++ more)

structure LongestStart (bytes : List UInt8) (n : Nat) : Prop where
  within : n ≤ bytes.length
  text : IsText (bytes.take n)
  longest : ∀ k ≤ bytes.length, IsText (bytes.take k) → k ≤ n

theorem decodeEncode (t : Text) : decode (encode t) = .ok t := by
  have read := decodeText t [] 0
  rw [List.append_nil] at read
  rw [decode, read]
  simp [decodeFrom, Except.map]

/- A flaw lies behind the bytes of every text that the bytes begin with. -/
theorem flawBehind {t : Text} {rest : List UInt8} {flaw : Flaw}
    (flawed : decode (encode t ++ rest) = .error flaw) : (encode t).length ≤ flaw.index := by
  rw [decode, decodeText, Nat.zero_add] at flawed
  obtain ⟨u, last, rfl, ends⟩ := textOrFlaw rest
  rw [decodeText] at flawed
  rcases ends with rfl | ⟨length, broken⟩ | ⟨short, -⟩
  · cases flawed
  · have behind := broken [] ((encode t).length + (encode u).length)
    rw [List.append_nil] at behind
    rw [behind] at flawed
    cases flawed
    exact Nat.le_add_right _ _
  · rw [short] at flawed
    cases flawed
    exact Nat.le_add_right _ _

theorem longestStart {t : Text} {rest : List UInt8} {length : Option Nat}
    (flawed : decode (encode t ++ rest) = .error ⟨(encode t).length, length⟩) :
    LongestStart (encode t ++ rest) (encode t).length := by
  refine ⟨by rw [List.length_append]; omega, ⟨t, List.take_left.symm⟩, fun k within text => ?_⟩
  obtain ⟨u, start⟩ := text
  rw [← List.take_append_drop k (encode t ++ rest), ← start] at flawed
  have behind := flawBehind flawed
  rwa [start, List.length_take, Nat.min_eq_left within] at behind

/- What is said of bytes that are no text. -/
theorem decodeRefuses {bytes : List UInt8} (refused : ¬ IsText bytes) :
    ∃ flaw, decode bytes = .error flaw ∧ LongestStart bytes flaw.index ∧
      (flaw.length = none ↔ CutOff bytes) := by
  obtain ⟨t, rest, rfl, ends⟩ := textOrFlaw bytes
  have read : ∀ more, decode (encode t ++ rest ++ more) =
      (decodeFrom (encode t).length none (rest ++ more)).map (t ++ ·) := fun more => by
    rw [decode, List.append_assoc, decodeText, Nat.zero_add]
  have whole := read []
  rw [List.append_nil, List.append_nil] at whole
  rcases ends with rfl | ⟨length, broken⟩ | ⟨short, c, more, nonempty, finished⟩
  · exact absurd ⟨t, (List.append_nil _).symm⟩ refused
  · have flawed : decode (encode t ++ rest) = .error ⟨(encode t).length, some length⟩ := by
      have ahead := broken [] (encode t).length
      rw [List.append_nil] at ahead
      rw [whole, ahead]
      rfl
    refine ⟨_, flawed, longestStart flawed, (fun none => nomatch none), fun cut => ?_⟩
    obtain ⟨more, -, u, text⟩ := cut
    have never := read more
    rw [broken, ← text, decodeEncode] at never
    cases never
  · have flawed : decode (encode t ++ rest) = .error ⟨(encode t).length, none⟩ := by
      rw [whole, short]
      rfl
    refine ⟨_, flawed, longestStart flawed, fun _ => ?_, fun _ => rfl⟩
    refine ⟨more, nonempty, t ++ [c], ?_⟩
    rw [encodeAppend, List.append_assoc, finished, encodeCons]
    exact congrArg (encode t ++ ·) (List.append_nil _)

end Intake.Text
