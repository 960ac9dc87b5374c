import Intake.Pattern.Match
import Intake.Proofs.Pattern.Compiled

/-! Patience. At one place a way meets every fork once, and from one fork to the next it only goes
onward in the code; so the steps that exploring allows for there are never used up, and to allow
for more changes nothing. -/
namespace Intake.Pattern

/- A jump goes onward or to a fork. -/
def Onwards (code : Array Instr) : Prop := ∀ a target : Nat, code[a]? = some (.jump target) →
  a < target ∨ ∃ p q, code[target]? = some (.fork p q)

theorem matcherOnwards (p : Pattern) : Onwards p.matcher.code := by
  have forks : Each (fun a i => i.IsFork → ∃ l r, (code p 0)[a]? = some (.fork l r)) 0 (code p 0) := by
    rintro a i here ⟨l, r, rfl⟩
    exact ⟨l, r, by rwa [Nat.zero_add]⟩
  intro a target here
  have inCode : (code p 0)[a]? = some (.jump target) := by simpa [matcher] using here
  have onward := codeOnward forks a _ inCode target rfl
  rw [Nat.zero_add] at onward
  simpa [matcher] using onward

/- How far a way may still go until the next fork. -/
def rank (code : Array Instr) (a : Nat) : Nat :=
  match code[a]? with
  | some (.fork _ _) => 0
  | _ => code.size + 2 - a

theorem rankBound (code : Array Instr) (a : Nat) : rank code a ≤ code.size + 2 - a := by
  unfold rank
  split <;> omega

theorem rankFork {code : Array Instr} {a p q : Nat} (here : code[a]? = some (.fork p q)) :
    rank code a = 0 := by rw [rank, here]

def unmet (code : Array Instr) (offset : Nat) (met : Met) : Nat :=
  (List.range code.size).countP (fun a => !met.contains (visit code a offset))

/- Every fork that is met leaves one fork less, after which a way may go through all the code. -/
def need (code : Array Instr) (offset a : Nat) (met : Met) : Nat :=
  unmet code offset met * (code.size + 3) + rank code a

theorem needPatience (code : Array Instr) (offset a : Nat) (met : Met) :
    need code offset a met < patience code := by
  have forks : unmet code offset met ≤ code.size :=
    Nat.le_trans List.countP_le_length (Nat.le_of_eq List.length_range)
  have most := Nat.mul_le_mul_right (code.size + 3) forks
  have step := rankBound code a
  have total : patience code = code.size * (code.size + 3) + (code.size + 3) := Nat.succ_mul ..
  rw [need, total]
  omega

/- What was met stays met. -/
def Keeps (met met' : Met) : Prop := ∀ v, met.contains v = true → met'.contains v = true

theorem keepsInsert (met : Met) (v : Nat) : Keeps met (met.insert v) := by
  intro w present
  rw [Std.HashSet.contains_insert, present, Bool.or_true]

theorem unmetKeeps {code : Array Instr} {offset : Nat} {met met' : Met} (keeps : Keeps met met') :
    unmet code offset met' ≤ unmet code offset met := by
  refine List.countP_mono_left fun a _ left => ?_
  cases present : met.contains (visit code a offset) with
  | false => rfl
  | true => rw [keeps _ present] at left; exact left

theorem countLess {xs : List Nat} {p q : Nat → Bool} (weaker : ∀ x ∈ xs, q x = true → p x = true)
    {a : Nat} (member : a ∈ xs) (counted : p a = true) (gone : q a = false) :
    xs.countP q < xs.countP p := by
  induction xs with
  | nil => cases member
  | cons x xs ih =>
    have later : ∀ y ∈ xs, q y = true → p y = true := fun y hy => weaker y (List.mem_cons_of_mem _ hy)
    rw [List.countP_cons, List.countP_cons]
    rcases List.mem_cons.1 member with rfl | member
    · have others := List.countP_mono_left later
      rw [if_pos counted, if_neg (by rw [gone]; simp)]
      omega
    · have fewer := ih later member
      by_cases inQ : q x = true
      · rw [if_pos inQ, if_pos (weaker x List.mem_cons_self inQ)]
        omega
      · rw [if_neg inQ]
        omega

theorem unmetInsert {code : Array Instr} {offset a : Nat} {met : Met} (inside : a < code.size)
    (fresh : met.contains (visit code a offset) = false) :
    unmet code offset (met.insert (visit code a offset)) < unmet code offset met := by
  refine countLess (fun b _ left => ?_) (List.mem_range.2 inside) (by rw [fresh]; rfl) (by simp)
  cases present : met.contains (visit code b offset) with
  | false => rfl
  | true => rw [keepsInsert met _ _ present] at left; exact left

def Growing (onward : CharSet → Nat → Met → Option Way × Met) : Prop :=
  ∀ set a met, Keeps met (onward set a met).2

theorem exploreAtKeeps {code : Array Instr} {pl : Place}
    {onward : CharSet → Nat → Met → Option Way × Met} (growing : Growing onward) (fuel a : Nat)
    (met : Met) : Keeps met (exploreAt code pl onward fuel a met).2 := by
  induction fuel generalizing a met with
  | zero => exact fun _ present => present
  | succ fuel ih =>
    unfold exploreAt
    split
    · exact fun _ present => present
    · exact growing _ _ _
    · split
      · exact ih _ _
      · exact fun _ present => present
    · exact ih _ _
    · exact ih _ _
    · split
      · exact fun _ present => present
      · rename_i p q _ _
        have inner := ih p (met.insert (visit code a pl.offset))
        have inserted : Keeps met (exploreAt code pl onward fuel p
            (met.insert (visit code a pl.offset))).2 :=
          fun v present => inner v (keepsInsert met _ v present)
        split
        · rename_i way met' found
          rwa [found] at inserted
        · rename_i met' found
          rw [found] at inserted
          exact fun v present => ih q met' v (inserted v present)

/- Going onward without a fork. -/
theorem needOnward {code : Array Instr} {a b offset : Nat} {met : Met} {i : Instr}
    (here : code[a]? = some i) (plain : ¬ i.IsFork) (onward : a < b ∨ rank code b = 0) :
    need code offset b met < need code offset a met := by
  have inside : a < code.size := (Array.getElem?_eq_some_iff.1 here).1
  have from_ : rank code a = code.size + 2 - a := by
    unfold rank
    split
    · rename_i p q fork
      exact absurd ⟨p, q, Option.some.inj (here.symm.trans fork)⟩ plain
    · rfl
  have to_ := rankBound code b
  unfold need
  omega

theorem needNext {code : Array Instr} {a offset : Nat} {met : Met} {i : Instr}
    (here : code[a]? = some i) (plain : ¬ i.IsFork) :
    need code offset (a + 1) met < need code offset a met :=
  needOnward here plain (.inl (Nat.lt_succ_self a))

/- A jump that goes back goes to a fork. -/
theorem needJump {code : Array Instr} (onwards : Onwards code) {a target offset : Nat} {met : Met}
    (here : code[a]? = some (.jump target)) :
    need code offset target met < need code offset a met := by
  have further : a < target ∨ rank code target = 0 := (onwards a target here).imp_right
    fun ⟨_, _, fork⟩ => rankFork fork
  exact needOnward here (by simp [Instr.IsFork]) further

/- Going anywhere once a fork is met. -/
theorem needFork {code : Array Instr} {a b offset : Nat} {met met' : Met}
    (fewer : unmet code offset met' < unmet code offset met) :
    need code offset b met' < need code offset a met := by
  have step := rankBound code b
  have less := Nat.mul_le_mul_right (code.size + 3) fewer
  rw [Nat.succ_mul] at less
  unfold need
  omega

/- Any two numbers of steps that cover the need give the same. -/
theorem exploreAtAmple {code : Array Instr} (onwards : Onwards code) {pl : Place}
    {onward : CharSet → Nat → Met → Option Way × Met} (growing : Growing onward)
    {fuel fuel' a : Nat} {met : Met} (covers : need code pl.offset a met < fuel)
    (covers' : need code pl.offset a met < fuel') :
    exploreAt code pl onward fuel a met = exploreAt code pl onward fuel' a met := by
  induction fuel generalizing fuel' a met with
  | zero => exact absurd covers (Nat.not_lt_zero _)
  | succ fuel ih =>
    obtain ⟨fuel', rfl⟩ := Nat.exists_eq_succ_of_ne_zero (Nat.ne_of_gt (Nat.zero_lt_of_lt covers'))
    unfold exploreAt
    cases here : code[a]? with
    | none => rfl
    | some i =>
      have same : ∀ b met', need code pl.offset b met' < need code pl.offset a met →
          exploreAt code pl onward fuel b met' = exploreAt code pl onward fuel' b met' :=
        fun b met' less => ih (by omega) (by omega)
      cases i with
      | take set => rfl
      | test e => simp only [same _ _ (needNext here (by simp [Instr.IsFork]))]
      | mark index closes => simp only [same _ _ (needNext here (by simp [Instr.IsFork]))]
      | jump target => exact same target _ (needJump onwards here)
      | fork p q =>
        have inside : a < code.size := (Array.getElem?_eq_some_iff.1 here).1
        have branch : ∀ b met', unmet code pl.offset met' < unmet code pl.offset met →
            exploreAt code pl onward fuel b met' = exploreAt code pl onward fuel' b met' :=
          fun b met' fewer => same b met' (needFork fewer)
        cases present : met.contains (visit code a pl.offset) with
        | true => rfl
        | false =>
          have fewer : unmet code pl.offset (met.insert (visit code a pl.offset)) <
              unmet code pl.offset met := unmetInsert inside present
          have keeps : Keeps _ (exploreAt code pl onward fuel' p
              (met.insert (visit code a pl.offset))).2 := exploreAtKeeps growing fuel' p _
          simp only [Bool.false_eq_true, if_false, branch p _ fewer]
          cases found : exploreAt code pl onward fuel' p (met.insert (visit code a pl.offset)) with
          | mk way met' =>
            rw [found] at keeps
            cases way with
            | some way => rfl
            | none => exact branch q met' (Nat.lt_of_le_of_lt (unmetKeeps keeps) fewer)

/- What exploring does behind the character ahead. -/
def onwardFrom (code : Array Instr) (offset : Nat) : Text → CharSet → Nat → Met → Option Way × Met
  | [], _, _, met => (none, met)
  | c :: rest, set, a, met =>
    if set.holds c then explore code rest (offset + c.utf8Size) (some c) a met else (none, met)

theorem explorePatience (code : Array Instr) (rest : Text) (offset a : Nat) (before : Option Char)
    (met : Met) : explore code rest offset before a met =
      exploreAt code ⟨offset, before, rest⟩ (onwardFrom code offset rest) (patience code) a met := by
  cases rest <;> rfl

theorem onwardGrowing (code : Array Instr) (offset : Nat) (rest : Text) :
    Growing (onwardFrom code offset rest) := by
  induction rest generalizing offset with
  | nil => exact fun _ _ _ _ present => present
  | cons c rest ih =>
    intro set a met
    simp only [onwardFrom]
    split
    · rw [explorePatience]
      exact exploreAtKeeps (ih _) _ _ _
    · exact fun _ present => present

/- More steps than exploring allows for at a place change nothing. -/
theorem exploreAmple (p : Pattern) (rest : Text) (offset a more : Nat) (before : Option Char)
    (met : Met) : exploreAt p.matcher.code ⟨offset, before, rest⟩
        (onwardFrom p.matcher.code offset rest) (patience p.matcher.code + more) a met =
      explore p.matcher.code rest offset before a met := by
  have covers := needPatience p.matcher.code offset a met
  rw [explorePatience]
  exact exploreAtAmple (matcherOnwards p) (onwardGrowing _ offset rest)
    (Nat.lt_of_lt_of_le covers (Nat.le_add_right _ _)) covers

end Intake.Pattern
