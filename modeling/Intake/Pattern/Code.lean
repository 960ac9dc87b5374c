import Intake.Pattern.Basic

/-! Patterns as code. An instruction that neither forks nor jumps goes on with the next one, and
the end of the code is success. Of the two ways of a fork the first is preferred. Code is as long
as the extent of its pattern says. -/
namespace Intake.Pattern

inductive Instr where
  | take (set : CharSet)
  | test (e : Edge)
  | mark (index : Nat) (closes : Bool)
  | fork (preferred other : Nat)
  | jump (target : Nat)
  deriving DecidableEq, Repr

namespace Instr

/- A greedy repetition prefers another round, any other one to be done. -/
def again (greedy : Bool) (inside outside : Nat) : Instr :=
  if greedy then fork inside outside else fork outside inside

end Instr

/- So many copies, each behind the one before. -/
def copies (body : Nat → List Instr) : Nat → Nat → List Instr
  | 0, _ => []
  | n + 1, start =>
    let c := body start
    c ++ copies body n (start + c.length)

/- So many copies, before each of which one may be done. -/
def upTo (body : Nat → List Instr) (greedy : Bool) (finish : Nat) : Nat → Nat → List Instr
  | 0, _ => []
  | n + 1, start =>
    let c := body (start + 1)
    .again greedy (start + 1) finish :: (c ++ upTo body greedy finish n (start + 1 + c.length))

/- One copy, and a fork back to it. -/
def loopAfter (body : Nat → List Instr) (greedy : Bool) (start : Nat) : List Instr :=
  let c := body start
  c ++ [.again greedy start (start + c.length + 1)]

/- A fork in front of one copy, which leads back to the fork. -/
def loopBefore (body : Nat → List Instr) (greedy : Bool) (start : Nat) : List Instr :=
  let c := body (start + 1)
  .again greedy (start + 1) (start + c.length + 2) :: (c ++ [.jump start])

/- How much code a pattern takes. -/
def extent : Pattern → Nat
  | empty => 0
  | one _ | edge _ => 1
  | seq p q => extent p + extent q
  | alt p q => extent p + extent q + 2
  | group _ p => extent p + 2
  | times 0 none _ p => extent p + 2
  | times (low + 1) none _ p => low * extent p + extent p + 1
  | times low (some high) _ p => low * extent p + (high - low) * (extent p + 1)

/- The code from an address on. A body that may be empty is looped over after a first round, so
that an empty round is not preferred to what follows. -/
def code : Pattern → Nat → List Instr
  | empty, _ => []
  | one s, _ => [.take s]
  | edge e, _ => [.test e]
  | seq p q, start =>
    let c := code p start
    c ++ code q (start + c.length)
  | alt p q, start =>
    let c := code p (start + 1)
    let middle := start + c.length + 2
    let d := code q middle
    .fork (start + 1) middle :: (c ++ .jump (middle + d.length) :: d)
  | group index p, start => .mark index false :: (code p (start + 1) ++ [.mark index true])
  | times 0 none greedy p, start =>
    if p.advances then loopBefore (code p) greedy start
    else
      let c := loopAfter (code p) greedy (start + 1)
      .again greedy (start + 1) (start + c.length + 1) :: c
  | times (low + 1) none greedy p, start =>
    let c := copies (code p) low start
    c ++ loopAfter (code p) greedy (start + c.length)
  | times low (some high) greedy p, start =>
    let c := copies (code p) low start
    let more := high - low
    let finish := start + c.length + more * (p.extent + 1)
    c ++ upTo (code p) greedy finish more (start + c.length)

section Extent
variable {body : Nat → List Instr} {n : Nat} (each : ∀ start, (body start).length = n)
include each

theorem copiesLength (k start : Nat) : (copies body k start).length = k * n := by
  induction k generalizing start with
  | zero => simp [copies]
  | succ k ih => simp [copies, each, ih, Nat.succ_mul]; omega

theorem upToLength (greedy : Bool) (finish k start : Nat) :
    (upTo body greedy finish k start).length = k * (n + 1) := by
  induction k generalizing start with
  | zero => simp [upTo]
  | succ k ih => simp [upTo, each, ih, Nat.succ_mul]; omega

end Extent

@[simp] theorem codeLength (p : Pattern) (start : Nat) : (code p start).length = p.extent := by
  induction p generalizing start with
  | empty => rfl
  | one | edge => rfl
  | seq p q ihp ihq => simp [code, extent, ihp, ihq]
  | alt p q ihp ihq => simp [code, extent, ihp, ihq]; omega
  | times low high greedy p ih =>
    rcases high with _ | high
    · rcases low with _ | low
      · by_cases advances : p.advances = true <;>
          simp [code, advances, loopBefore, loopAfter, extent, ih]
      · simp [code, loopAfter, extent, ih, copiesLength ih]; omega
    · simp [code, extent, copiesLength ih, upToLength ih]
  | group index p ih => simp [code, extent, ih]

end Intake.Pattern
