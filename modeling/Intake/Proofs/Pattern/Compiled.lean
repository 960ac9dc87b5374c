import Intake.Pattern.Code

/-! Compiled patterns. The code of a pattern takes the pattern's sets and tests its edges; its
instructions lead nowhere outside it, and every jump goes onward or back to a fork. -/
namespace Intake.Pattern

/- Sets and edges are as required everywhere in a pattern. -/
def Made (takes : CharSet → Prop) (tests : Edge → Prop) : Pattern → Prop
  | empty => True
  | one s => takes s
  | edge e => tests e
  | seq p q | alt p q => Made takes tests p ∧ Made takes tests q
  | times _ _ _ p | group _ p => Made takes tests p

namespace Instr

def Made (takes : CharSet → Prop) (tests : Edge → Prop) : Instr → Prop
  | take s => takes s
  | test e => tests e
  | mark .. | fork .. | jump _ => True

/- Where an instruction goes on. -/
def Leads (a : Nat) (there : Nat → Prop) : Instr → Prop
  | take _ | test _ | mark .. => there (a + 1)
  | fork p q => there p ∧ there q
  | jump target => there target

def Between (low high a : Nat) (i : Instr) : Prop := i.Leads a (fun b => low ≤ b ∧ b ≤ high)

def IsFork (i : Instr) : Prop := ∃ p q, i = fork p q

def Onward (forks : Nat → Prop) (a : Nat) (i : Instr) : Prop :=
  ∀ target, i = jump target → a < target ∨ forks target

theorem Leads.imp {a : Nat} {there there' : Nat → Prop} {i : Instr} (h : i.Leads a there)
    (weaker : ∀ b, there b → there' b) : i.Leads a there' := by
  cases i with
  | fork p q => exact ⟨weaker _ h.1, weaker _ h.2⟩
  | take | test | mark | jump => exact weaker _ h

theorem Between.widen {low high low' high' a : Nat} {i : Instr} (h : i.Between low high a)
    (below : low' ≤ low) (above : high ≤ high') : i.Between low' high' a :=
  Leads.imp h (fun _ hb => ⟨Nat.le_trans below hb.1, Nat.le_trans hb.2 above⟩)

theorem againFork (greedy : Bool) (a b : Nat) : (again greedy a b).IsFork := by
  cases greedy <;> exact ⟨_, _, rfl⟩

theorem madeAgain {takes tests} {greedy : Bool} {a b : Nat} :
    (again greedy a b).Made takes tests := by cases greedy <;> trivial

theorem onwardAgain {forks : Nat → Prop} {c : Nat} {greedy : Bool} {a b : Nat} :
    (again greedy a b).Onward forks c := by
  intro target same
  cases greedy <;> simp [again] at same

theorem betweenAgain {low high c a b : Nat} {greedy : Bool} (ha : low ≤ a ∧ a ≤ high)
    (hb : low ≤ b ∧ b ≤ high) : (again greedy a b).Between low high c := by
  cases greedy
  · exact ⟨hb, ha⟩
  · exact ⟨ha, hb⟩

end Instr

/- What holds of each instruction and its address, the first standing at `start`. -/
def Each (P : Nat → Instr → Prop) (start : Nat) (is : List Instr) : Prop :=
  ∀ n i, is[n]? = some i → P (start + n) i

section Each
variable {P Q : Nat → Instr → Prop} {start : Nat}

@[simp] theorem eachNil : Each P start [] := fun n i h => by simp at h

@[simp] theorem eachCons {i : Instr} {is : List Instr} :
    Each P start (i :: is) ↔ P start i ∧ Each P (start + 1) is := by
  constructor
  · intro h
    exact ⟨h 0 i rfl, fun n j hj => by
      have := h (n + 1) j hj; rwa [Nat.add_comm n, ← Nat.add_assoc] at this⟩
  · rintro ⟨first, rest⟩ n j hj
    cases n with
    | zero => cases hj; exact first
    | succ n =>
      have := rest n j hj
      rwa [Nat.add_assoc, Nat.add_comm 1] at this

@[simp] theorem eachAppend {is js : List Instr} :
    Each P start (is ++ js) ↔ Each P start is ∧ Each P (start + is.length) js := by
  induction is generalizing start with
  | nil => simp
  | cons i is ih =>
    simp only [List.cons_append, eachCons, ih, and_assoc, List.length_cons]
    rw [Nat.add_right_comm, Nat.add_assoc start]

theorem Each.imp {is : List Instr} (h : Each P start is) (weaker : ∀ a i, P a i → Q a i) :
    Each Q start is := fun n i hi => weaker _ _ (h n i hi)

theorem Each.widen {low high low' high' : Nat} {is : List Instr}
    (h : Each (Instr.Between low high) start is) (below : low' ≤ low) (above : high ≤ high') :
    Each (Instr.Between low' high') start is := h.imp fun _ _ inside => inside.widen below above

variable {body : Nat → List Instr}
  (inBody : ∀ start, Each Q start (body start) → Each P start (body start))
include inBody

/- What the body's instructions have when they meet a condition, those of its copies have. -/
theorem eachCopies {n : Nat} (h : Each Q start (copies body n start)) :
    Each P start (copies body n start) := by
  induction n generalizing start with
  | zero => simp [copies]
  | succ n ih =>
    simp only [copies, eachAppend] at h ⊢
    exact ⟨inBody _ h.1, ih h.2⟩

theorem eachUpTo {greedy : Bool} {finish n : Nat} (forks : ∀ c a b, P c (.again greedy a b))
    (h : Each Q start (upTo body greedy finish n start)) :
    Each P start (upTo body greedy finish n start) := by
  induction n generalizing start with
  | zero => simp [upTo]
  | succ n ih =>
    simp only [upTo, eachCons, eachAppend] at h ⊢
    exact ⟨forks _ _ _, inBody _ h.2.1, ih h.2.2⟩

end Each

/- What the instructions read is what the pattern is made of. -/
theorem codeMade {takes : CharSet → Prop} {tests : Edge → Prop} {p : Pattern}
    (made : Made takes tests p) (start : Nat) :
    Each (fun _ i => i.Made takes tests) start (code p start) := by
  induction p generalizing start with
  | empty => simp [code]
  | one s => simp only [code, eachCons]; exact ⟨made, eachNil⟩
  | edge e => simp only [code, eachCons]; exact ⟨made, eachNil⟩
  | seq p q ihp ihq =>
    simp only [code, eachAppend]
    exact ⟨ihp made.1 _, ihq made.2 _⟩
  | alt p q ihp ihq =>
    simp only [code, eachCons, eachAppend]
    refine ⟨trivial, ihp made.1 _, trivial, ?_⟩
    rw [Nat.add_right_comm start 1, Nat.add_assoc]
    exact ihq made.2 _
  | times low high greedy p ih =>
    have body : ∀ start, Each (fun _ _ => True) start (code p start) →
        Each (fun _ i => i.Made takes tests) start (code p start) := fun start _ => ih made start
    have anything : ∀ start is, Each (fun _ _ => True) start is := fun _ _ _ _ _ => trivial
    rcases high with _ | high
    · rcases low with _ | low
      · by_cases advances : p.advances = true
        · simp only [code, advances, if_true, loopBefore, eachCons, eachAppend]
          exact ⟨Instr.madeAgain, ih made _, trivial, eachNil⟩
        · simp only [code, advances, Bool.false_eq_true, if_false, loopAfter, eachCons, eachAppend]
          exact ⟨Instr.madeAgain, ih made _, Instr.madeAgain, eachNil⟩
      · simp only [code, loopAfter, eachAppend, eachCons]
        exact ⟨eachCopies body (anything _ _), ih made _, Instr.madeAgain, eachNil⟩
    · simp only [code, eachAppend]
      exact ⟨eachCopies body (anything _ _),
        eachUpTo body (fun _ _ _ => Instr.madeAgain) (anything _ _)⟩
  | group index p ih =>
    simp only [code, eachCons, eachAppend]
    exact ⟨trivial, ih made _, trivial, eachNil⟩

section Between
variable {body : Nat → List Instr} {n : Nat} (length : ∀ start, (body start).length = n)
  (inBody : ∀ start, Each (Instr.Between start (start + n)) start (body start))
include length inBody

theorem copiesBetween (k start : Nat) :
    Each (Instr.Between start (start + k * n)) start (copies body k start) := by
  induction k generalizing start with
  | zero => simp [copies]
  | succ k ih =>
    simp only [copies, eachAppend, length, Nat.succ_mul]
    exact ⟨(inBody start).widen (by omega) (by omega),
      (ih (start + n)).widen (by omega) (by omega)⟩

theorem upToBetween (greedy : Bool) (k start : Nat) {finish : Nat}
    (ends : finish = start + k * (n + 1)) :
    Each (Instr.Between start finish) start (upTo body greedy finish k start) := by
  induction k generalizing start with
  | zero => simp [upTo]
  | succ k ih =>
    have more : (k + 1) * (n + 1) = k * (n + 1) + (n + 1) := Nat.succ_mul ..
    simp only [upTo, eachCons, eachAppend, length]
    refine ⟨Instr.betweenAgain (by omega) (by omega),
      (inBody (start + 1)).widen (by omega) (by omega), ?_⟩
    exact (ih (start + 1 + n) (by omega)).widen (by omega) (by omega)

end Between

/- No instruction leads out of the code, but perhaps to the address right behind it. -/
theorem codeBetween (p : Pattern) (start : Nat) :
    Each (Instr.Between start (start + p.extent)) start (code p start) := by
  induction p generalizing start with
  | empty => simp [code]
  | one s => simp [code, Instr.Between, Instr.Leads, extent]
  | edge e => simp [code, Instr.Between, Instr.Leads, extent]
  | seq p q ihp ihq =>
    simp only [code, eachAppend, codeLength, extent]
    exact ⟨(ihp start).widen (by omega) (by omega),
      (ihq _).widen (by omega) (by omega)⟩
  | alt p q ihp ihq =>
    simp only [code, eachCons, eachAppend, codeLength, extent]
    refine ⟨⟨by omega, by omega⟩, (ihp _).widen (by omega) (by omega),
      ⟨by omega, by omega⟩, ?_⟩
    rw [Nat.add_right_comm start 1, Nat.add_assoc]
    exact (ihq _).widen (by omega) (by omega)
  | times low high greedy p ih =>
    have length := codeLength p
    rcases high with _ | high
    · rcases low with _ | low
      · by_cases advances : p.advances = true
        · simp only [code, advances, if_true, loopBefore, eachCons, eachAppend, codeLength, extent]
          exact ⟨Instr.betweenAgain (by omega) (by omega),
            (ih _).widen (by omega) (by omega), ⟨by omega, by omega⟩, eachNil⟩
        · simp only [code, advances, Bool.false_eq_true, if_false, loopAfter, eachCons, eachAppend,
            List.length_append, codeLength, List.length_singleton, extent]
          exact ⟨Instr.betweenAgain (by omega) (by omega),
            (ih _).widen (by omega) (by omega),
            Instr.betweenAgain (by omega) (by omega), eachNil⟩
      · simp only [code, loopAfter, eachAppend, eachCons, copiesLength length, codeLength, extent]
        exact ⟨(copiesBetween length ih low start).widen (by omega) (by omega),
          (ih _).widen (by omega) (by omega),
          Instr.betweenAgain (by omega) (by omega), eachNil⟩
    · simp only [code, eachAppend, copiesLength length, extent]
      exact ⟨(copiesBetween length ih low start).widen (by omega) (by omega),
        (upToBetween length ih greedy (high - low) _ rfl).widen (by omega) (by omega)⟩
  | group index p ih =>
    simp only [code, eachCons, eachAppend, codeLength, extent]
    exact ⟨⟨by omega, by omega⟩, (ih _).widen (by omega) (by omega),
      ⟨by omega, by omega⟩, eachNil⟩

/- Jumps are laid out only where a loop leads back to the fork in front of it, and behind the
first of two alternatives. -/
theorem codeOnward {forks : Nat → Prop} {p : Pattern} {start : Nat}
    (known : Each (fun a i => i.IsFork → forks a) start (code p start)) :
    Each (Instr.Onward forks) start (code p start) := by
  induction p generalizing start with
  | empty => simp [code]
  | one s => simp [code, Instr.Onward]
  | edge e => simp [code, Instr.Onward]
  | seq p q ihp ihq =>
    simp only [code, eachAppend] at known ⊢
    exact ⟨ihp known.1, ihq known.2⟩
  | alt p q ihp ihq =>
    simp only [code, eachCons, eachAppend] at known ⊢
    obtain ⟨_, left, _, right⟩ := known
    rw [Nat.add_right_comm start 1, Nat.add_assoc] at right ⊢
    refine ⟨by simp [Instr.Onward], ihp left, ?_, ihq right⟩
    intro target same
    cases same
    exact .inl (by omega)
  | times low high greedy p ih =>
    rcases high with _ | high
    · rcases low with _ | low
      · by_cases advances : p.advances = true
        · simp only [code, advances, if_true, loopBefore, eachCons, eachAppend] at known ⊢
          refine ⟨Instr.onwardAgain, ih known.2.1, ?_, eachNil⟩
          intro target same
          cases same
          exact .inr (known.1 (Instr.againFork ..))
        · simp only [code, advances, Bool.false_eq_true, if_false, loopAfter, eachCons,
            eachAppend] at known ⊢
          exact ⟨Instr.onwardAgain, ih known.2.1, Instr.onwardAgain, eachNil⟩
      · simp only [code, loopAfter, eachAppend, eachCons] at known ⊢
        exact ⟨eachCopies (fun _ => ih) known.1, ih known.2.1, Instr.onwardAgain, eachNil⟩
    · simp only [code, eachAppend] at known ⊢
      exact ⟨eachCopies (fun _ => ih) known.1,
        eachUpTo (fun _ => ih) (fun _ _ _ => Instr.onwardAgain) known.2⟩
  | group index p ih =>
    simp only [code, eachCons, eachAppend] at known ⊢
    exact ⟨by simp [Instr.Onward], ih known.2.1, by simp [Instr.Onward], eachNil⟩

end Intake.Pattern
