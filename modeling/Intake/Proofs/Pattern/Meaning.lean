import Intake.Proofs.Pattern.Thorough

/-! What patterns mean. A pattern leads from one place to others, whichever of them it prefers; its
code gets from its first address to the one behind it in just these ways, so exploring finds a way
wherever the pattern leads anywhere. -/
namespace Intake.Pattern

inductive Rounds (leads : Place → Place → Prop) : Nat → Place → Place → Prop where
  | done {pl} : Rounds leads 0 pl pl
  | round {n pl mid pl'} (first : leads pl mid) (more : Rounds leads n mid pl') :
      Rounds leads (n + 1) pl pl'

def Matches : Pattern → Place → Place → Prop
  | empty, pl, pl' => pl' = pl
  | one s, pl, pl' => pl.step? s = some pl'
  | edge e, pl, pl' => pl.meets e = true ∧ pl' = pl
  | seq p q, pl, pl' => ∃ mid, Matches p pl mid ∧ Matches q mid pl'
  | alt p q, pl, pl' => Matches p pl pl' ∨ Matches q pl pl'
  | times low high _ p, pl, pl' =>
    ∃ n, low ≤ n ∧ (∀ most ∈ high, n ≤ max low most) ∧ Rounds (Matches p) n pl pl'
  | group _ p, pl, pl' => Matches p pl pl'

section Rounds
variable {leads : Place → Place → Prop} {pl pl' : Place}

theorem roundsAppend {m n : Nat} {mid : Place} (first : Rounds leads m pl mid)
    (more : Rounds leads n mid pl') : Rounds leads (m + n) pl pl' := by
  induction first with
  | done => rwa [Nat.zero_add]
  | round step _ ih => rw [Nat.succ_add]; exact .round step (ih more)

theorem roundsSplit {m n : Nat} (rounds : Rounds leads (m + n) pl pl') :
    ∃ mid, Rounds leads m pl mid ∧ Rounds leads n mid pl' := by
  induction m generalizing pl with
  | zero => exact ⟨pl, .done, by rwa [Nat.zero_add] at rounds⟩
  | succ m ih =>
    rw [Nat.succ_add] at rounds
    cases rounds with
    | round step more =>
      obtain ⟨mid, first, rest⟩ := ih more
      exact ⟨mid, .round step first, rest⟩

end Rounds

/- So many steps to where the code ends. -/
inductive Finish (code : Array Instr) : Nat → Nat → Place → Place → Prop where
  | done {a pl} (here : code[a]? = none) : Finish code 0 a pl pl
  | step {n a pl b pl' pl''} (first : Step code a pl b pl') (rest : Finish code n b pl' pl'') :
      Finish code (n + 1) a pl pl''

section Runs
variable {code : Array Instr} {a b : Nat} {pl pl' : Place}

theorem reachesOn {c : Nat} {pl'' : Place} (first : Reaches code a pl b pl')
    (rest : Reaches code b pl' c pl'') : Reaches code a pl c pl'' := by
  induction first with
  | here => exact rest
  | step step _ ih => exact .step step (ih rest)

theorem finishReaches (reaches : Reaches code a pl b pl') (finish : code[b]? = none) :
    ∃ n, Finish code n a pl pl' := by
  induction reaches with
  | here => exact ⟨0, .done finish⟩
  | step first _ ih =>
    obtain ⟨n, rest⟩ := ih finish
    exact ⟨n + 1, .step first rest⟩

/- Where an instruction stands, a run that finishes takes its step. -/
theorem finishStep {n : Nat} {i : Instr} (here : code[a]? = some i)
    (finish : Finish code n a pl pl') :
    ∃ m b mid, n = m + 1 ∧ i.Allows a pl b mid ∧ Finish code m b mid pl' := by
  cases finish with
  | done none => rw [here] at none; cases none
  | step first rest => exact ⟨_, _, _, rfl, (stepAllows here).1 first, rest⟩

end Runs

/- From one address to another the code leads as told: every run that finishes gets there that way,
without more steps to go than before, and every such way is one of the code. -/
structure Means (code : Array Instr) (leads : Place → Place → Prop) (start stop : Nat) : Prop where
  through : ∀ {n pl pl'}, Finish code n start pl pl' →
    ∃ m mid, m ≤ n ∧ leads pl mid ∧ Finish code m stop mid pl'
  gets : ∀ {pl pl'}, leads pl pl' → Reaches code start pl stop pl'

section Means
variable {code : Array Instr} {left right leads : Place → Place → Prop} {a b c d : Nat}

theorem Means.congr (means : Means code left a b) (same : ∀ pl pl', left pl pl' ↔ right pl pl') :
    Means code right a b where
  through finish := by
    obtain ⟨m, mid, fewer, inside, rest⟩ := means.through finish
    exact ⟨m, mid, fewer, (same _ _).1 inside, rest⟩
  gets inside := means.gets ((same _ _).2 inside)

theorem meansNothing : Means code (fun pl pl' => pl' = pl) a a where
  through finish := ⟨_, _, Nat.le_refl _, rfl, finish⟩
  gets same := by cases same; exact .here

theorem meansSeq (first : Means code left a b) (second : Means code right b c) :
    Means code (fun pl pl' => ∃ mid, left pl mid ∧ right mid pl') a c where
  through finish := by
    obtain ⟨m, mid, fewer, inside, rest⟩ := first.through finish
    obtain ⟨k, mid', fewer', inside', rest'⟩ := second.through rest
    exact ⟨k, mid', Nat.le_trans fewer' fewer, ⟨mid, inside, inside'⟩, rest'⟩
  gets := by
    rintro pl pl' ⟨mid, inside, inside'⟩
    exact reachesOn (first.gets inside) (second.gets inside')

/- An instruction with one way onward. -/
theorem meansInstr {i : Instr} (here : code[a]? = some i)
    (allows : ∀ pl c pl', i.Allows a pl c pl' ↔ c = b ∧ leads pl pl') : Means code leads a b where
  through finish := by
    obtain ⟨m, c, mid, rfl, allowed, rest⟩ := finishStep here finish
    obtain ⟨rfl, inside⟩ := (allows _ _ _).1 allowed
    exact ⟨m, mid, Nat.le_succ m, inside, rest⟩
  gets inside := .step ((stepAllows here).2 ((allows _ _ _).2 ⟨rfl, inside⟩)) .here

/- A fork, whichever way it prefers. -/
def ForksTo (code : Array Instr) (a b c : Nat) : Prop :=
  code[a]? = some (.fork b c) ∨ code[a]? = some (.fork c b)

theorem forksAgain {greedy : Bool} (here : code[a]? = some (.again greedy b c)) :
    ForksTo code a b c := by
  cases greedy
  · exact .inr here
  · exact .inl here

theorem forksStep (forks : ForksTo code a b c) {n : Nat} {pl pl' : Place}
    (finish : Finish code n a pl pl') :
    ∃ m, n = m + 1 ∧ (Finish code m b pl pl' ∨ Finish code m c pl pl') := by
  rcases forks with here | here
  all_goals
    obtain ⟨m, d, mid, rfl, ⟨way, rfl⟩, rest⟩ := finishStep here finish
    rcases way with rfl | rfl <;> simp [rest]

theorem forksFirst (forks : ForksTo code a b c) (pl : Place) : Step code a pl b pl := by
  rcases forks with here | here
  · exact .preferred here
  · exact .other here

theorem forksSecond (forks : ForksTo code a b c) (pl : Place) : Step code a pl c pl := by
  rcases forks with here | here
  · exact .other here
  · exact .preferred here

theorem meansFork (forks : ForksTo code a b c) (first : Means code left b d)
    (second : Means code right c d) :
    Means code (fun pl pl' => left pl pl' ∨ right pl pl') a d where
  through finish := by
    obtain ⟨m, rfl, rest | rest⟩ := forksStep forks finish
    · obtain ⟨k, mid, fewer, inside, rest⟩ := first.through rest
      exact ⟨k, mid, Nat.le_succ_of_le fewer, .inl inside, rest⟩
    · obtain ⟨k, mid, fewer, inside, rest⟩ := second.through rest
      exact ⟨k, mid, Nat.le_succ_of_le fewer, .inr inside, rest⟩
  gets := by
    rintro pl pl' (inside | inside)
    · exact .step (forksFirst forks pl) (first.gets inside)
    · exact .step (forksSecond forks pl) (second.gets inside)

/- A body and a fork back to it: one round at least. Every round takes a step at the fork. -/
theorem meansLoopAfter (body : Means code leads a b) (forks : ForksTo code b a c) :
    Means code (fun pl pl' => ∃ n, Rounds leads (n + 1) pl pl') a c where
  through {n pl pl'} finish := by
    induction n using Nat.strongRecOn generalizing pl with
    | ind n ih =>
      obtain ⟨m, mid, fewer, inside, rest⟩ := body.through finish
      obtain ⟨k, rfl, back | out⟩ := forksStep forks rest
      · obtain ⟨l, mid', fewer', ⟨rounds, more⟩, rest'⟩ := ih k (by omega) back
        exact ⟨l, mid', by omega, ⟨rounds + 1, .round inside more⟩, rest'⟩
      · exact ⟨k, mid, by omega, ⟨0, .round inside .done⟩, out⟩
  gets := by
    rintro pl pl' ⟨n, rounds⟩
    induction n generalizing pl with
    | zero =>
      cases rounds with
      | round first none =>
        cases none
        exact reachesOn (body.gets first) (.step (forksSecond forks _) .here)
    | succ n ih =>
      cases rounds with
      | round first more =>
        exact reachesOn (body.gets first) (.step (forksFirst forks _) (ih more))

/- A fork in front of a body that leads back to it. -/
theorem meansLoopBefore (forks : ForksTo code a b d) (body : Means code leads b c)
    (back : code[c]? = some (.jump a)) :
    Means code (fun pl pl' => ∃ n, Rounds leads n pl pl') a d where
  through {n pl pl'} finish := by
    induction n using Nat.strongRecOn generalizing pl with
    | ind n ih =>
      obtain ⟨m, rfl, inner | out⟩ := forksStep forks finish
      · obtain ⟨k, mid, fewer, inside, rest⟩ := body.through inner
        obtain ⟨l, e, mid', rfl, ⟨rfl, rfl⟩, again⟩ := finishStep back rest
        obtain ⟨j, mid'', fewer', ⟨rounds, more⟩, rest'⟩ := ih l (by omega) again
        exact ⟨j, mid'', by omega, ⟨rounds + 1, .round inside more⟩, rest'⟩
      · exact ⟨m, pl, Nat.le_succ m, ⟨0, .done⟩, out⟩
  gets := by
    rintro pl pl' ⟨n, rounds⟩
    induction n generalizing pl with
    | zero =>
      cases rounds
      exact .step (forksSecond forks _) .here
    | succ n ih =>
      cases rounds with
      | round first more =>
        exact .step (forksFirst forks _) (reachesOn (body.gets first) (.step (.jump back) (ih more)))

end Means

/- Instructions stand in the code from an address on. -/
def Placed (whole : Array Instr) (start : Nat) (is : List Instr) : Prop :=
  Each (fun a i => whole[a]? = some i) start is

section Copies
variable {whole : Array Instr} {leads : Place → Place → Prop} {body : Nat → List Instr} {length : Nat}
  (each : ∀ start, (body start).length = length)
  (means : ∀ start, Placed whole start (body start) → Means whole leads start (start + length))
include each means

theorem meansCopies (n start : Nat) (placed : Placed whole start (copies body n start)) :
    Means whole (Rounds leads n) start (start + n * length) := by
  induction n generalizing start with
  | zero =>
    rw [Nat.zero_mul, Nat.add_zero]
    refine meansNothing.congr fun pl pl' => ⟨?_, ?_⟩
    · rintro rfl; exact .done
    · intro rounds; cases rounds; rfl
  | succ n ih =>
    simp only [Placed, copies, eachAppend, each] at placed
    have further : start + (n + 1) * length = start + length + n * length := by
      rw [Nat.succ_mul]; omega
    rw [further]
    refine (meansSeq (means start placed.1) (ih _ placed.2)).congr fun pl pl' => ⟨?_, ?_⟩
    · rintro ⟨mid, first, more⟩; exact .round first more
    · intro rounds
      cases rounds with
      | round first more => exact ⟨_, first, more⟩

theorem meansUpTo {greedy : Bool} {finish : Nat} (n start : Nat)
    (ends : finish = start + n * (length + 1))
    (placed : Placed whole start (upTo body greedy finish n start)) :
    Means whole (fun pl pl' => ∃ k, k ≤ n ∧ Rounds leads k pl pl') start finish := by
  induction n generalizing start with
  | zero =>
    rw [Nat.zero_mul, Nat.add_zero] at ends
    subst ends
    refine meansNothing.congr fun pl pl' => ⟨?_, ?_⟩
    · rintro rfl; exact ⟨0, Nat.le_refl _, .done⟩
    · rintro ⟨k, none, rounds⟩
      obtain rfl : k = 0 := by omega
      cases rounds; rfl
  | succ n ih =>
    simp only [Placed, upTo, eachCons, eachAppend, each] at placed
    have later := ih (start + 1 + length) (by rw [ends, Nat.succ_mul]; omega) placed.2.2
    have round := meansSeq (means (start + 1) placed.2.1) later
    refine (meansFork (forksAgain placed.1) round meansNothing).congr fun pl pl' => ⟨?_, ?_⟩
    · rintro (⟨mid, first, k, fewer, more⟩ | rfl)
      · exact ⟨k + 1, Nat.succ_le_succ fewer, .round first more⟩
      · exact ⟨0, Nat.zero_le _, .done⟩
    · rintro ⟨k, fewer, rounds⟩
      cases rounds with
      | done => exact .inr rfl
      | round first more => exact .inl ⟨_, first, _, Nat.le_of_succ_le_succ fewer, more⟩

end Copies

section Repetition
variable {whole : Array Instr} {p : Pattern} {greedy : Bool}
  (body : ∀ start, Placed whole start (code p start) →
    Means whole (Matches p) start (start + p.extent))
include body

/- Any number of rounds, each of which takes a character. -/
theorem meansAdvancing (advances : p.advances = true) (start : Nat)
    (placed : Placed whole start (code (times 0 none greedy p) start)) :
    Means whole (Matches (times 0 none greedy p)) start
      (start + (times 0 none greedy p).extent) := by
  simp only [Placed, code, advances, if_true, loopBefore, eachCons, eachAppend, codeLength] at placed
  have means := meansLoopBefore (forksAgain placed.1) (body _ placed.2.1) placed.2.2.1
  refine means.congr fun pl pl' => ⟨?_, ?_⟩
  · rintro ⟨n, rounds⟩
    exact ⟨n, Nat.zero_le _, by simp, rounds⟩
  · rintro ⟨n, -, -, rounds⟩
    exact ⟨n, rounds⟩

/- Any number of rounds of what may take nothing: none, or a loop of one at least. -/
theorem meansIdle (idle : ¬ p.advances = true) (start : Nat)
    (placed : Placed whole start (code (times 0 none greedy p) start)) :
    Means whole (Matches (times 0 none greedy p)) start
      (start + (times 0 none greedy p).extent) := by
  simp only [Placed, code, idle, Bool.false_eq_true, if_false, loopAfter, eachCons, eachAppend,
    List.length_append, codeLength, List.length_singleton] at placed
  obtain ⟨fork, inside, again, -⟩ := placed
  have finish : start + 1 + p.extent + 1 = start + (p.extent + 2) := by omega
  have finish' : start + (p.extent + 1) + 1 = start + (p.extent + 2) := by omega
  have forks := forksAgain again
  have front := forksAgain fork
  rw [finish] at forks
  rw [finish'] at front
  have means := meansFork front (meansLoopAfter (body _ inside) forks) meansNothing
  refine means.congr fun pl pl' => ⟨?_, ?_⟩
  · rintro (⟨n, rounds⟩ | rfl)
    · exact ⟨n + 1, Nat.zero_le _, by simp, rounds⟩
    · exact ⟨0, Nat.zero_le _, by simp, .done⟩
  · rintro ⟨n, -, -, rounds⟩
    cases n with
    | zero => cases rounds; exact .inr rfl
    | succ n => exact .inl ⟨n, rounds⟩

/- The last of the copies that have to be is one that is looped. -/
theorem meansAtLeast (low start : Nat)
    (placed : Placed whole start (code (times (low + 1) none greedy p) start)) :
    Means whole (Matches (times (low + 1) none greedy p)) start
      (start + (times (low + 1) none greedy p).extent) := by
  simp only [Placed, code, loopAfter, eachAppend, eachCons, copiesLength (codeLength p),
    codeLength] at placed
  obtain ⟨front, inside, again, -⟩ := placed
  have finish : start + (times (low + 1) none greedy p).extent =
      start + low * p.extent + p.extent + 1 := by rw [extent]; omega
  rw [finish]
  have means := meansSeq (meansCopies (codeLength p) body low start front)
    (meansLoopAfter (body _ inside) (forksAgain again))
  refine means.congr fun pl pl' => ⟨?_, ?_⟩
  · rintro ⟨mid, first, n, more⟩
    exact ⟨low + (n + 1), by omega, by simp, roundsAppend first more⟩
  · rintro ⟨n, enough, -, rounds⟩
    obtain ⟨k, rfl⟩ := Nat.exists_eq_add_of_le enough
    rw [Nat.add_assoc, Nat.add_comm 1] at rounds
    obtain ⟨mid, first, more⟩ := roundsSplit rounds
    exact ⟨mid, first, k, more⟩

/- Copies that have to be, and behind them copies that may be. -/
theorem meansBetween (low high start : Nat)
    (placed : Placed whole start (code (times low (some high) greedy p) start)) :
    Means whole (Matches (times low (some high) greedy p)) start
      (start + (times low (some high) greedy p).extent) := by
  simp only [Placed, code, eachAppend, copiesLength (codeLength p)] at placed
  have finish : start + (times low (some high) greedy p).extent =
      start + low * p.extent + (high - low) * (p.extent + 1) := by rw [extent]; omega
  rw [finish]
  have means := meansSeq (meansCopies (codeLength p) body low start placed.1)
    (meansUpTo (codeLength p) body (high - low) _ rfl placed.2)
  refine means.congr fun pl pl' => ⟨?_, ?_⟩
  · rintro ⟨mid, first, k, fewer, more⟩
    refine ⟨low + k, by omega, fun most same => ?_, roundsAppend first more⟩
    obtain rfl : high = most := Option.some.inj same
    omega
  · rintro ⟨n, enough, bound, rounds⟩
    have most := bound high rfl
    obtain ⟨k, rfl⟩ := Nat.exists_eq_add_of_le enough
    obtain ⟨mid, first, more⟩ := roundsSplit rounds
    exact ⟨mid, first, k, by omega, more⟩

end Repetition

theorem codeMeans {whole : Array Instr} (p : Pattern) (start : Nat)
    (placed : Placed whole start (code p start)) :
    Means whole (Matches p) start (start + p.extent) := by
  induction p generalizing start with
  | empty => exact meansNothing
  | one s =>
    simp only [Placed, code, eachCons] at placed
    exact meansInstr placed.1 fun pl c pl' => Iff.rfl
  | edge e =>
    simp only [Placed, code, eachCons] at placed
    exact meansInstr placed.1 fun pl c pl' => Iff.rfl
  | seq p q ihp ihq =>
    simp only [Placed, code, eachAppend, codeLength] at placed
    rw [extent, ← Nat.add_assoc]
    exact meansSeq (ihp _ placed.1) (ihq _ placed.2)
  | alt p q ihp ihq =>
    simp only [Placed, code, eachCons, eachAppend, codeLength] at placed
    obtain ⟨fork, left, jump, right⟩ := placed
    have middle : start + 1 + p.extent + 1 = start + p.extent + 2 := by omega
    have finish : start + (alt p q).extent = start + p.extent + 2 + q.extent := by
      rw [extent]; omega
    rw [middle] at right
    rw [finish]
    have first := meansSeq (ihp _ left) (meansInstr jump fun pl c pl' => Iff.rfl)
    refine (meansFork (.inl fork) first (ihq _ right)).congr fun pl pl' => or_congr_left ⟨?_, ?_⟩
    · rintro ⟨mid, inside, rfl⟩
      exact inside
    · intro inside
      exact ⟨pl', inside, rfl⟩
  | times low high greedy p ih =>
    cases high with
    | some high => exact meansBetween ih low high start placed
    | none =>
      cases low with
      | succ low => exact meansAtLeast ih low start placed
      | zero =>
        by_cases advances : p.advances = true
        · exact meansAdvancing ih advances start placed
        · exact meansIdle ih advances start placed
  | group index p ih =>
    simp only [Placed, code, eachCons, eachAppend, codeLength] at placed
    obtain ⟨opens, body, closes, -⟩ := placed
    have finish : start + (group index p).extent = start + 1 + p.extent + 1 := by rw [extent]; omega
    rw [finish]
    have means := meansSeq (meansInstr opens fun pl c pl' => Iff.rfl)
      (meansSeq (ih _ body) (meansInstr closes fun pl c pl' => Iff.rfl))
    refine means.congr fun pl pl' => ⟨?_, fun inside => ⟨pl, rfl, pl', inside, rfl⟩⟩
    rintro ⟨mid, rfl, mid', inside, rfl⟩
    exact inside

/- Ways that end the code are those that the pattern leads. -/
theorem endsMatches {p : Pattern} {pl : Place} {way : Way} :
    Ends p.matcher.code 0 pl way ↔ ∃ pl', Matches p pl pl' ∧ way.stop = pl'.offset := by
  have placed : Placed p.matcher.code 0 (code p 0) := fun n i here => by
    rw [Nat.zero_add]; simpa [matcher] using here
  have means := codeMeans p 0 placed
  have behind : p.matcher.code[0 + p.extent]? = none := by simp [matcher]
  constructor
  · rintro ⟨b, pl', reaches, finish, stop⟩
    obtain ⟨n, run⟩ := finishReaches reaches finish
    obtain ⟨m, mid, -, inside, rest⟩ := means.through run
    cases rest with
    | done => exact ⟨_, inside, stop⟩
    | step first =>
      have none := behind
      cases first <;> simp_all
  · rintro ⟨pl', inside, stop⟩
    exact ⟨_, pl', means.gets inside, behind, stop⟩

/- With nothing met before, exploring finds a way wherever the pattern leads anywhere. -/
theorem exploreMatches (p : Pattern) (rest : Text) (offset : Nat) (before : Option Char) :
    (explore p.matcher.code rest offset before 0 ∅).1.isSome = true ↔
      ∃ pl, Matches p ⟨offset, before, rest⟩ pl := by
  rw [exploreThorough]
  constructor
  · rintro ⟨way, ends⟩
    obtain ⟨pl, inside, -⟩ := endsMatches.1 ends
    exact ⟨pl, inside⟩
  · rintro ⟨pl, inside⟩
    exact ⟨⟨pl.offset, []⟩, endsMatches.2 ⟨pl, inside, rfl⟩⟩

end Intake.Pattern
