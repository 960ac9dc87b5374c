import Intake.Proofs.Text.Layout
import Intake.Ratio
import Intake.Table
import Mathlib.Algebra.GroupWithZero.Nat

/-! Checked operations. A slice has to run from one break of its text to a later one, an index or a
key has to be there, sums and differences have to be machine words, and neither a divisor nor the
size of blocks may be zero.
A checked run stops at the first operation that is undefined. -/
namespace Intake

inductive Panic where
  | badSlice (s : Span)
  | noIndex (i : Nat)
  | noKey
  | notWord
  | zero
  deriving DecidableEq, Repr

abbrev Checked (α : Type) := Except Panic α

namespace Text

/- The longest text that can be held. -/
def longest : Nat := 2 ^ 63 - 1

theorem lengthSize (t : Text) : t.length ≤ size t := by
  induction t with
  | nil => exact Nat.le_refl 0
  | cons c t ih =>
    have positive := charPositive c
    rw [List.length_cons, sizeCons]
    omega

def onBreak : Nat → Text → Bool
  | 0, _ => true
  | _ + 1, [] => false
  | n + 1, c :: rest => decide (c.utf8Size ≤ n + 1) && onBreak (n + 1 - c.utf8Size) rest

theorem onBreakIff {n : Nat} {t : Text} : onBreak n t = true ↔ Break t n := by
  induction t generalizing n with
  | nil =>
    cases n with
    | zero => exact ⟨fun _ => ⟨[], [], rfl, rfl⟩, fun _ => rfl⟩
    | succ n =>
      refine ⟨fun none => (by cases none), ?_⟩
      rintro ⟨before, after, whole, reached⟩
      have none : before = [] := (List.append_eq_nil_iff.1 whole.symm).1
      rw [none] at reached
      cases reached
  | cons c t ih =>
    cases n with
    | zero => exact ⟨fun _ => ⟨[], c :: t, rfl, rfl⟩, fun _ => rfl⟩
    | succ n =>
      rw [onBreak, Bool.and_eq_true, decide_eq_true_eq, ih]
      constructor
      · rintro ⟨fits, before, after, rfl, reached⟩
        exact ⟨c :: before, after, rfl, by rw [sizeCons]; omega⟩
      · rintro ⟨before, after, whole, reached⟩
        cases before with
        | nil => cases reached
        | cons d before =>
          cases whole
          rw [sizeCons] at reached
          exact ⟨by omega, before, after, rfl, by omega⟩

instance (t : Text) (n : Nat) : Decidable (Break t n) := decidable_of_iff _ onBreakIff

instance (t : Text) (s : Span) : Decidable (t.Within s) := decidable_of_iff _ withinBreaks.symm

end Text

namespace Checked

def slice (t : Text) (s : Span) : Checked Text :=
  if t.Within s then .ok (t.slice s) else .error (.badSlice s)

def entry {α : Type} (xs : List α) (i : Nat) : Checked α :=
  match xs[i]? with
  | some x => .ok x
  | none => .error (.noIndex i)

def tail {α : Type} (xs : List α) (i : Nat) : Checked (List α) :=
  if i ≤ xs.length then .ok (xs.drop i) else .error (.noIndex i)

def store {α : Type} (xs : List α) (i : Nat) (x : α) : Checked (List α) :=
  if i < xs.length then .ok (xs.set i x) else .error (.noIndex i)

def value {κ α : Type} [Ord κ] (t : Table κ α) (key : κ) : Checked α :=
  match t.get? key with
  | some v => .ok v
  | none => .error .noKey

def word (n : Nat) : Checked Nat := if n < UInt64.size then .ok n else .error .notWord

def sum (a b : Nat) : Checked Nat := word (a + b)

def difference (a b : Nat) : Checked Nat := if b ≤ a then .ok (a - b) else .error .notWord

def ratio (part whole : Nat) : Checked Float :=
  if whole = 0 then .error .zero else .ok (Ratio.of part whole)

/- One more for each entry that counts. -/
def countFrom {α : Type} (counts : α → Bool) (n : Nat) : List α → Checked Nat
  | [] => .ok n
  | x :: rest => do
    let n ← if counts x then sum n 1 else .ok n
    countFrom counts n rest

def count {α : Type} (counts : α → Bool) (xs : List α) : Checked Nat := countFrom counts 0 xs

def length {α : Type} (xs : List α) : Checked Nat := count (fun _ => true) xs

def total (n : Nat) : List Nat → Checked Nat
  | [] => .ok n
  | m :: rest => do
    let n ← sum n m
    total n rest

@[simp] theorem okBind {α β : Type} (a : α) (f : α → Checked β) :
    ((Except.ok a : Checked α) >>= f) = f a := rfl

section Defined
variable {α : Type}

theorem sliceOk {t : Text} {s : Span} (within : t.Within s) : slice t s = .ok (t.slice s) :=
  if_pos within

theorem entryOk {xs : List α} {i : Nat} {x : α} (here : xs[i]? = some x) : entry xs i = .ok x := by
  rw [entry, here]

theorem tailOk {xs : List α} {i : Nat} (inside : i ≤ xs.length) : tail xs i = .ok (xs.drop i) :=
  if_pos inside

theorem storeOk {xs : List α} {i : Nat} {x : α} (inside : i < xs.length) :
    store xs i x = .ok (xs.set i x) := if_pos inside

theorem valueOk {κ : Type} [Ord κ] {t : Table κ α} {key : κ} {v : α} (here : t.get? key = some v) :
    value t key = .ok v := by
  rw [value, here]

theorem wordOk {n : Nat} (fits : n < UInt64.size) : word n = .ok n := if_pos fits

theorem sumOk {a b : Nat} (fits : a + b < UInt64.size) : sum a b = .ok (a + b) := wordOk fits

theorem differenceOk {a b : Nat} (less : b ≤ a) : difference a b = .ok (a - b) := if_pos less

theorem ratioOk {part whole : Nat} (some : whole ≠ 0) : ratio part whole = .ok (Ratio.of part whole) :=
  if_neg some

theorem countFromOk {counts : α → Bool} {n : Nat} {xs : List α} (fits : n + xs.length < UInt64.size) :
    countFrom counts n xs = .ok (n + xs.countP counts) := by
  induction xs generalizing n with
  | nil => rfl
  | cons x xs ih =>
    rw [List.length_cons] at fits
    rw [countFrom, List.countP_cons]
    cases counts x with
    | true =>
      have next : n + 1 + xs.length < UInt64.size := by omega
      have one : n + 1 < UInt64.size := by omega
      simp only [if_true, sumOk one, okBind, ih next]
      rw [Nat.add_assoc, Nat.add_comm 1]
    | false =>
      have next : n + xs.length < UInt64.size := by omega
      simp only [Bool.false_eq_true, if_false, okBind, ih next, Nat.add_zero]

theorem countOk {counts : α → Bool} {xs : List α} (fits : xs.length < UInt64.size) :
    count counts xs = .ok (xs.countP counts) := by
  rw [count, countFromOk (by omega), Nat.zero_add]

theorem lengthOk {xs : List α} (fits : xs.length < UInt64.size) : length xs = .ok xs.length := by
  rw [length, countOk fits, List.countP_true]

theorem totalOk {n : Nat} {ms : List Nat} (fits : n + ms.sum < UInt64.size) :
    total n ms = .ok (n + ms.sum) := by
  induction ms generalizing n with
  | nil => rfl
  | cons m ms ih =>
    rw [List.sum_cons, ← Nat.add_assoc] at fits ⊢
    rw [total, sumOk (by omega), okBind, ih fits]

/- Entry by entry, nothing undefined is met. -/
theorem mapOk {β : Type} {f : α → Checked β} {g : α → β} {xs : List α}
    (each : ∀ x ∈ xs, f x = .ok (g x)) : xs.mapM f = .ok (xs.map g) := by
  induction xs with
  | nil => rfl
  | cons x xs ih =>
    rw [List.mapM_cons, each x List.mem_cons_self, okBind,
      ih fun y hy => each y (List.mem_cons_of_mem _ hy)]
    rfl

end Defined

/- Of a text that can be held, a size is a machine word with room to spare. -/
theorem wordOfSize {t : Text} (held : t.size ≤ Text.longest) {n : Nat} (bound : n ≤ t.size + 2) :
    n < UInt64.size := by
  have room : Text.longest + 2 < UInt64.size := by decide
  omega

end Checked

end Intake
