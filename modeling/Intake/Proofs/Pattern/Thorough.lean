import Intake.Proofs.Pattern.Patience
import Intake.Proofs.Pattern.Reach

/-! Exploring is thorough. Where it finds no way there is none: of every fork that it leaves behind
as met, both ways lead to failure or to a fork of that kind again, so no run gets to the end. -/
namespace Intake.Pattern

/- Places further on in the same text. -/
inductive Ahead : Place → Place → Prop where
  | here {pl} : Ahead pl pl
  | next {pl pl' : Place} {c rest} (same : pl.rest = c :: rest) (later : Ahead (pl.next c rest) pl') :
      Ahead pl pl'

theorem aheadOffset {pl pl' : Place} (ahead : Ahead pl pl') : pl.offset ≤ pl'.offset := by
  induction ahead with
  | here => exact Nat.le_refl _
  | next _ _ ih => exact Nat.le_trans (Nat.le_add_right _ _) ih

theorem aheadTaken {origin pl pl' : Place} {set : CharSet} (ahead : Ahead origin pl)
    (taken : pl.step? set = some pl') : Ahead origin pl' := by
  obtain ⟨c, rest, cut, -, rfl⟩ := stepTaken taken
  induction ahead with
  | here => exact .next cut .here
  | next same _ ih => exact .next same (ih cut taken)

/- In one text an offset tells the place. -/
theorem aheadUnique {origin pl pl' : Place} (ahead : Ahead origin pl) (ahead' : Ahead origin pl')
    (same : pl.offset = pl'.offset) : pl = pl' := by
  have beyond : ∀ {o : Place} {c rest q}, Ahead (o.next c rest) q → o.offset < q.offset := by
    intro o c rest q later
    have further := aheadOffset later
    have positive := Text.charPositive c
    simp only [Place.next] at further
    omega
  induction ahead with
  | here =>
    cases ahead' with
    | here => rfl
    | next _ later => exact absurd same (Nat.ne_of_lt (beyond later))
  | next cut later ih =>
    cases ahead' with
    | here => exact absurd same.symm (Nat.ne_of_lt (beyond later))
    | next cut' later' =>
      cases cut.symm.trans cut'
      exact ih later' same

/- Runs from an address and a place fail, or get to forks that were met, before they fork. -/
inductive Stuck (code : Array Instr) (met : Met) : Nat → Place → Prop where
  | take {a set pl} (here : code[a]? = some (.take set))
      (later : ∀ pl', pl.step? set = some pl' → Stuck code met (a + 1) pl') : Stuck code met a pl
  | test {a e pl} (here : code[a]? = some (.test e))
      (later : pl.meets e = true → Stuck code met (a + 1) pl) : Stuck code met a pl
  | mark {a index closes pl} (here : code[a]? = some (.mark index closes))
      (later : Stuck code met (a + 1) pl) : Stuck code met a pl
  | jump {a target pl} (here : code[a]? = some (.jump target)) (later : Stuck code met target pl) :
      Stuck code met a pl
  | fork {a p q pl} (here : code[a]? = some (.fork p q))
      (known : met.contains (visit code a pl.offset) = true) : Stuck code met a pl

/- A fork both ways of which are of no use. -/
inductive Settled (code : Array Instr) (origin : Place) (met : Met) : Nat → Prop where
  | fork {a p q pl} (here : code[a]? = some (.fork p q)) (ahead : Ahead origin pl)
      (preferred : Stuck code met p pl) (other : Stuck code met q pl) :
      Settled code origin met (visit code a pl.offset)

section Stuck
variable {code : Array Instr} {met met' : Met} {origin pl : Place} {a : Nat}

theorem stuckKeeps (keeps : Keeps met met') (stuck : Stuck code met a pl) :
    Stuck code met' a pl := by
  induction stuck with
  | take here _ ih => exact .take here ih
  | test here _ ih => exact .test here ih
  | mark here _ ih => exact .mark here ih
  | jump here _ ih => exact .jump here ih
  | fork here known => exact .fork here (keeps _ known)

theorem settledKeeps (keeps : Keeps met met') {v : Nat} (settled : Settled code origin met v) :
    Settled code origin met' v := by
  cases settled with
  | fork here ahead preferred other =>
    exact .fork here ahead (stuckKeeps keeps preferred) (stuckKeeps keeps other)

theorem settledBefore {c : Char} {rest : Text} (same : origin.rest = c :: rest) {v : Nat}
    (settled : Settled code (origin.next c rest) met v) : Settled code origin met v := by
  cases settled with
  | fork here ahead preferred other => exact .fork here (.next same ahead) preferred other

/- All forks that were met are of no use. -/
def Spent (code : Array Instr) (origin : Place) (met : Met) : Prop :=
  ∀ v, met.contains v = true → Settled code origin met v

theorem stuckNever (spent : Spent code origin met) {b : Nat} {pl' : Place}
    (reaches : Reaches code a pl b pl') (ahead : Ahead origin pl) (stuck : Stuck code met a pl) :
    code[b]? ≠ none := by
  induction reaches with
  | here => cases stuck <;> simp_all
  | step first rest ih =>
    cases stuck with
    | take here later =>
      obtain ⟨rfl, taken⟩ := (stepAllows here).1 first
      exact ih (aheadTaken ahead taken) (later _ taken)
    | test here later =>
      obtain ⟨rfl, meets, rfl⟩ := (stepAllows here).1 first
      exact ih ahead (later meets)
    | mark here later =>
      obtain ⟨rfl, rfl⟩ := (stepAllows here).1 first
      exact ih ahead later
    | jump here later =>
      obtain ⟨rfl, rfl⟩ := (stepAllows here).1 first
      exact ih ahead later
    | fork here known =>
      obtain ⟨way, rfl⟩ := (stepAllows here).1 first
      generalize at_ : visit code _ _ = v at known
      cases spent v known with
      | fork there ahead' preferred other =>
        obtain ⟨rfl, offset⟩ := visitInjective (Array.getElem?_eq_some_iff.1 here).1
          (Array.getElem?_eq_some_iff.1 there).1 at_
        cases Option.some.inj (here.symm.trans there)
        cases aheadUnique ahead ahead' offset
        rcases way with rfl | rfl
        · exact ih ahead preferred
        · exact ih ahead other

end Stuck

/- What a failure tells: no way from here but over forks that were met, and those met anew are
of no use. -/
structure Fails (code : Array Instr) (pl : Place) (met : Met) (a : Nat) (met' : Met) : Prop where
  stuck : Stuck code met' a pl
  anew : ∀ v, met'.contains v = true → met.contains v = true ∨ Settled code pl met' v

/- A fork has failed when both ways have, one after the other. -/
theorem failsFork {code : Array Instr} {pl : Place} {met met₁ met' : Met} {a p q : Nat}
    (here : code[a]? = some (.fork p q))
    (first : Fails code pl (met.insert (visit code a pl.offset)) p met₁)
    (second : Fails code pl met₁ q met')
    (keeps : Keeps (met.insert (visit code a pl.offset)) met₁) (keeps' : Keeps met₁ met') :
    Fails code pl met a met' := by
  have self : Settled code pl met' (visit code a pl.offset) :=
    .fork here .here (stuckKeeps keeps' first.stuck) second.stuck
  have known : met'.contains (visit code a pl.offset) = true := keeps' _ (keeps _ (by simp))
  refine ⟨.fork here known, fun v present => ?_⟩
  rcases second.anew v present with earlier | settled
  · rcases first.anew v earlier with earlier | settled
    · rw [Std.HashSet.contains_insert, Bool.or_eq_true, beq_iff_eq] at earlier
      rcases earlier with rfl | earlier
      · exact .inr self
      · exact .inl earlier
    · exact .inr (settledKeeps keeps' settled)
  · exact .inr settled

theorem exploreAtFails {code : Array Instr} (onwards : Onwards code) {pl : Place}
    {onward : CharSet → Nat → Met → Option Way × Met} (growing : Growing onward)
    (onwardFails : ∀ set a met met', code[a]? = some (.take set) →
      onward set (a + 1) met = (none, met') → Fails code pl met a met')
    {fuel a : Nat} {met met' : Met} (covers : need code pl.offset a met < fuel)
    (failed : exploreAt code pl onward fuel a met = (none, met')) : Fails code pl met a met' := by
  induction fuel generalizing a met met' with
  | zero => exact absurd covers (Nat.not_lt_zero _)
  | succ fuel ih =>
    unfold exploreAt at failed
    split at failed
    · cases failed
    · rename_i set here
      exact onwardFails set a met met' here failed
    · rename_i e here
      split at failed
      · have less : need code pl.offset (a + 1) met < need code pl.offset a met :=
          needNext here (by simp [Instr.IsFork])
        have inner := ih (by omega) failed
        exact ⟨.test here fun _ => inner.stuck, inner.anew⟩
      · rename_i fails
        cases failed
        exact ⟨.test here fun meets => absurd meets fails, fun v present => .inl present⟩
    · rename_i index closes here
      have less : need code pl.offset (a + 1) met < need code pl.offset a met :=
        needNext here (by simp [Instr.IsFork])
      cases inner : exploreAt code pl onward fuel (a + 1) met with
      | mk way met'' =>
        rw [inner] at failed
        cases way with
        | some way => cases failed
        | none =>
          cases failed
          have inner := ih (by omega) inner
          exact ⟨.mark here inner.stuck, inner.anew⟩
    · rename_i target here
      have less : need code pl.offset target met < need code pl.offset a met := needJump onwards here
      have inner := ih (by omega) failed
      exact ⟨.jump here inner.stuck, inner.anew⟩
    · rename_i p q here
      split at failed
      · rename_i present
        cases failed
        exact ⟨.fork here present, fun v present => .inl present⟩
      · rename_i fresh
        have inside : a < code.size := (Array.getElem?_eq_some_iff.1 here).1
        have fewer := unmetInsert inside (Bool.eq_false_iff.2 fresh)
        split at failed
        · cases failed
        · rename_i met₁ left
          have keeps : Keeps _ (exploreAt code pl onward fuel p
              (met.insert (visit code a pl.offset))).2 := exploreAtKeeps growing fuel p _
          have keeps' : Keeps _ (exploreAt code pl onward fuel q met₁).2 :=
            exploreAtKeeps growing fuel q _
          rw [left] at keeps
          rw [failed] at keeps'
          have lessLeft : need code pl.offset p (met.insert (visit code a pl.offset)) <
              need code pl.offset a met := needFork fewer
          have lessRight : need code pl.offset q met₁ < need code pl.offset a met :=
            needFork (Nat.lt_of_le_of_lt (unmetKeeps keeps) fewer)
          exact failsFork here (ih (by omega) left) (ih (by omega) failed) keeps keeps'

theorem exploreFails {code : Array Instr} (onwards : Onwards code) {rest : Text}
    {offset a : Nat} {before : Option Char} {met met' : Met}
    (failed : explore code rest offset before a met = (none, met')) :
    Fails code ⟨offset, before, rest⟩ met a met' := by
  induction rest generalizing offset a before met met' with
  | nil =>
    rw [explorePatience] at failed
    refine exploreAtFails onwards (onwardGrowing _ _ _) ?_ (needPatience code offset a met) failed
    intro set b met met' here failed
    cases failed
    exact ⟨.take here (fun _ taken => by cases taken), fun v present => .inl present⟩
  | cons c rest ih =>
    rw [explorePatience] at failed
    refine exploreAtFails onwards (onwardGrowing _ _ _) ?_ (needPatience code offset a met) failed
    intro set b met met' here failed
    simp only [onwardFrom] at failed
    split at failed
    · have later := ih failed
      refine ⟨.take here fun pl' taken => ?_, fun v present => ?_⟩
      · obtain ⟨_, _, cut, -, rfl⟩ := stepTaken taken
        cases cut
        exact later.stuck
      · exact (later.anew v present).imp_right (settledBefore rfl)
    · rename_i outside
      cases failed
      refine ⟨.take here fun pl' taken => ?_, fun v present => .inl present⟩
      obtain ⟨_, _, cut, inside, -⟩ := stepTaken taken
      cases cut
      exact absurd inside outside

/- With nothing met before, exploring finds a way whenever there is one. -/
theorem exploreThorough (p : Pattern) (rest : Text) (offset : Nat) (before : Option Char) :
    (explore p.matcher.code rest offset before 0 ∅).1.isSome = true ↔
      ∃ way, Ends p.matcher.code 0 ⟨offset, before, rest⟩ way := by
  cases found : explore p.matcher.code rest offset before 0 ∅ with
  | mk way met =>
    cases way with
    | some way => exact ⟨fun _ => ⟨way, exploreEnds found⟩, fun _ => rfl⟩
    | none =>
      have fails := exploreFails (matcherOnwards p) found
      have spent : Spent p.matcher.code ⟨offset, before, rest⟩ met := fun v present =>
        (fails.anew v present).resolve_left (by rw [Std.HashSet.contains_empty]; exact Bool.false_ne_true)
      refine ⟨fun some => (by cases some), ?_⟩
      rintro ⟨way, b, pl', reaches, finish, -⟩
      exact absurd finish (stuckNever spent reaches .here fails.stuck)

end Intake.Pattern
