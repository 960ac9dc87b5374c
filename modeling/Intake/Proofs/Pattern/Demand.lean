import Intake.Proofs.Pattern.Reach

/-! Patterns that call for a character. When every way through a pattern takes a character from
one of certain sets, a text without such characters holds no match: a run of the code is held in
a region of addresses which only those instructions lead out of. -/
namespace Intake.Pattern

def Demands (sets : CharSet → Prop) : Pattern → Prop
  | empty | edge _ => False
  | one s => sets s
  | seq p q => Demands sets p ∨ Demands sets q
  | alt p q => Demands sets p ∧ Demands sets q
  | times low _ _ p => low ≠ 0 ∧ Demands sets p
  | group _ p => Demands sets p

structure Holds (sets : CharSet → Prop) (start : Nat) (is : List Instr) (region : Nat → Prop) :
    Prop where
  enter : region start
  inside : ∀ a, region a → start ≤ a ∧ a < start + is.length
  kept : Each (fun a i => region a → (∃ s, i = .take s ∧ sets s) ∨ i.Leads a region) start is

section Regions
variable {sets : CharSet → Prop} {region : Nat → Prop} {start : Nat} {is js : List Instr}

theorem holdsPrefix (holds : Holds sets start is region) : Holds sets start (is ++ js) region where
  enter := holds.enter
  inside a ha := by
    have := holds.inside a ha
    simp only [List.length_append]; omega
  kept := by
    refine eachAppend.2 ⟨holds.kept, fun n i _ ha => ?_⟩
    have := holds.inside _ ha
    omega

/- A region that is no wider within the code may be wider elsewhere. -/
theorem keptWider (holds : Holds sets start is region) {wider : Nat → Prop}
    (wide : ∀ a, region a → wider a)
    (here : ∀ a, start ≤ a → a < start + is.length → wider a → region a) :
    Each (fun a i => wider a → (∃ s, i = .take s ∧ sets s) ∨ i.Leads a wider) start is := by
  intro n i hi ha
  have bound := (List.getElem?_eq_some_iff.1 hi).1
  have inRegion : region (start + n) := here _ (Nat.le_add_right _ _) (by omega) ha
  exact (holds.kept n i hi inRegion).imp_right (fun leads => leads.imp wide)

/- What stands before leads into the region, as long as it leads nowhere else. -/
theorem holdsSuffix (between : Each (Instr.Between start (start + is.length)) start is)
    (holds : Holds sets (start + is.length) js region) :
    Holds sets start (is ++ js) (fun a => (start ≤ a ∧ a < start + is.length) ∨ region a) where
  enter := by
    cases is with
    | nil => exact .inr holds.enter
    | cons i is => exact .inl ⟨Nat.le_refl _, by simp⟩
  inside a ha := by
    simp only [List.length_append]
    rcases ha with ha | ha
    · omega
    · have := holds.inside a ha; omega
  kept := by
    refine eachAppend.2 ⟨fun n i hi _ => .inr ?_, keptWider holds (fun _ => .inr) ?_⟩
    · refine (between n i hi).imp fun b hb => ?_
      rcases Nat.lt_or_ge b (start + is.length) with less | more
      · exact .inl ⟨hb.1, less⟩
      · have same : b = start + is.length := by omega
        exact .inr (same ▸ holds.enter)
    · exact fun a late _ ha => ha.resolve_left (fun early => by omega)

/- Both ways of a fork lead into a region of their own; nothing gets to the jump between them. -/
theorem holdsFork {left right : Nat → Prop} (holdsLeft : Holds sets (start + 1) is left)
    (holdsRight : Holds sets (start + is.length + 2) js right) (target : Nat) :
    Holds sets start
      (.fork (start + 1) (start + is.length + 2) :: (is ++ .jump target :: js))
      (fun a => a = start ∨ left a ∨ right a) where
  enter := .inl rfl
  inside a ha := by
    simp only [List.length_cons, List.length_append]
    rcases ha with rfl | ha | ha
    · omega
    · have := holdsLeft.inside a ha; omega
    · have := holdsRight.inside a ha; omega
  kept := by
    have middle : start + 1 + is.length + 1 = start + is.length + 2 := by omega
    simp only [eachCons, eachAppend, middle]
    have onLeft : ∀ a, left a → start + 1 ≤ a ∧ a < start + 1 + is.length := holdsLeft.inside
    have onRight : ∀ a, right a → start + is.length + 2 ≤ a := fun a ha => (holdsRight.inside a ha).1
    refine ⟨fun _ => .inr ⟨.inr (.inl holdsLeft.enter), .inr (.inr holdsRight.enter)⟩,
      keptWider holdsLeft (fun _ h => .inr (.inl h)) fun a late early ha => ?_, fun ha => ?_,
      keptWider holdsRight (fun _ h => .inr (.inr h)) fun a late early ha => ?_⟩
    · rcases ha with first | ha | ha
      · omega
      · exact ha
      · have := onRight a ha; omega
    · rcases ha with first | ha | ha
      · omega
      · have := onLeft _ ha; omega
      · have := onRight _ ha; omega
    · rcases ha with first | ha | ha
      · omega
      · have := onLeft a ha; omega
      · exact ha

theorem holdsGroup (holds : Holds sets (start + 1) is region) (index : Nat) :
    Holds sets start (.mark index false :: (is ++ [.mark index true]))
      (fun a => a = start ∨ region a) where
  enter := .inl rfl
  inside a ha := by
    simp only [List.length_cons, List.length_append]
    rcases ha with rfl | ha
    · omega
    · have := holds.inside a ha; omega
  kept := by
    simp only [eachCons, eachAppend]
    refine ⟨fun _ => .inr (.inr holds.enter), keptWider holds (fun _ => .inr) ?_, fun ha => ?_, eachNil⟩
    · exact fun a late _ ha => ha.resolve_left (fun first => by omega)
    · rcases ha with ha | ha
      · omega
      · have := holds.inside _ ha; omega

end Regions

/- Such a region lies in the code of every pattern that calls for the sets. -/
theorem demandHolds {sets : CharSet → Prop} {p : Pattern} (demands : Demands sets p) (start : Nat) :
    ∃ region, Holds sets start (code p start) region := by
  induction p generalizing start with
  | empty | edge => exact demands.elim
  | one s =>
    refine ⟨(· = start), rfl, fun a ha => by simp [code, ha], ?_⟩
    simp only [code, eachCons]
    exact ⟨fun _ => .inl ⟨s, rfl, demands⟩, eachNil⟩
  | seq p q ihp ihq =>
    rcases demands with left | right
    · obtain ⟨region, holds⟩ := ihp left start
      exact ⟨region, holdsPrefix holds⟩
    · obtain ⟨region, holds⟩ := ihq right (start + (code p start).length)
      exact ⟨_, holdsSuffix (by rw [codeLength]; exact codeBetween p start) holds⟩
  | alt p q ihp ihq =>
    obtain ⟨left, holdsLeft⟩ := ihp demands.1 (start + 1)
    obtain ⟨right, holdsRight⟩ := ihq demands.2 (start + (code p (start + 1)).length + 2)
    exact ⟨_, holdsFork holdsLeft holdsRight _⟩
  | times low high greedy p ih =>
    obtain ⟨region, holds⟩ := ih demands.2 start
    obtain ⟨low, rfl⟩ := Nat.exists_eq_succ_of_ne_zero demands.1
    refine ⟨region, ?_⟩
    rcases high with _ | high
    · cases low with
      | zero =>
        simp only [code, copies, List.nil_append, List.length_nil, Nat.add_zero, loopAfter]
        exact holdsPrefix holds
      | succ low => exact holdsPrefix (holdsPrefix holds)
    · exact holdsPrefix (holdsPrefix holds)
  | group index p ih =>
    obtain ⟨region, holds⟩ := ih demands (start + 1)
    exact ⟨_, holdsGroup holds index⟩

/- A run stays in a region as long as no character ahead is in one of the sets. -/
theorem reachesHeld {sets : CharSet → Prop} {is : List Instr} {region : Nat → Prop}
    (holds : Holds sets 0 is region) {a b : Nat} {pl pl' : Place}
    (reaches : Reaches is.toArray a pl b pl') (inRegion : region a)
    (absent : ∀ c ∈ pl.rest, ∀ s, sets s → s.holds c = false) : region b := by
  have onward : ∀ {a i}, is[a]? = some i → region a →
      (∃ s, i = .take s ∧ sets s) ∨ i.Leads a region := fun here ha => by
    have := holds.kept _ _ here (by rwa [Nat.zero_add]); rwa [Nat.zero_add] at this
  induction reaches with
  | here => exact inRegion
  | @step a pl b pl' c pl'' first rest ih =>
    cases first with
    | take here taken =>
      obtain ⟨d, after, ahead, inSet, rfl⟩ := stepTaken taken
      rcases onward (by simpa using here) inRegion with ⟨s, same, asked⟩ | leads
      · cases same
        rw [absent d (by simp [ahead]) _ asked] at inSet
        cases inSet
      · exact ih leads (fun e he => absent e (by rw [ahead]; exact List.mem_cons_of_mem _ he))
    | test here | mark here | jump here | preferred here | other here =>
      rcases onward (by simpa using here) inRegion with ⟨s, same, -⟩ | leads
      · cases same
      · first | exact ih leads absent | exact ih leads.1 absent | exact ih leads.2 absent

theorem demandMisses {sets : CharSet → Prop} {p : Pattern} (demands : Demands sets p) {rest : Text}
    (absent : ∀ c ∈ rest, ∀ s, sets s → s.holds c = false) (offset : Nat) (before : Option Char)
    (met : Met) : (explore p.matcher.code rest offset before 0 met).1 = none := by
  obtain ⟨region, holds⟩ := demandHolds demands 0
  cases found : explore p.matcher.code rest offset before 0 met with
  | mk way met' =>
    cases way with
    | none => rfl
    | some way =>
      obtain ⟨b, pl', reaches, finish, -⟩ := exploreEnds found
      have inside := holds.inside b (reachesHeld holds reaches holds.enter absent)
      simp only [matcher, List.getElem?_toArray, List.getElem?_eq_none_iff] at finish
      omega

/- A text that lacks what a pattern calls for holds no match of it. -/
theorem findAllMisses {sets : CharSet → Prop} {p : Pattern} (demands : Demands sets p) {t : Text}
    (absent : ∀ c ∈ t, ∀ s, sets s → s.holds c = false) : p.matcher.findAll t = [] := by
  have general : ∀ (rest : Text) (last : Option Nat) (met : Met) (offset : Nat)
      (before : Option Char), (∀ c ∈ rest, ∀ s, sets s → s.holds c = false) →
      p.matcher.findFrom last met offset before rest = [] := by
    intro rest
    induction rest with
    | nil =>
      intro last met offset before absent
      simp [Matcher.findFrom, demandMisses demands absent offset before met]
    | cons c rest ih =>
      intro last met offset before absent
      have later : ∀ d ∈ rest, ∀ s, sets s → s.holds d = false :=
        fun d hd => absent d (List.mem_cons_of_mem _ hd)
      have misses := demandMisses demands absent offset before met
      unfold Matcher.findFrom
      split
      · exact ih _ _ _ _ later
      · split
        · exact ih _ _ _ _ later
        · rename_i found
          rw [found] at misses
          cases misses
  exact general t _ _ _ _ absent

end Intake.Pattern
