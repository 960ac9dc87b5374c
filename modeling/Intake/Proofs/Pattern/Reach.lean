import Intake.Pattern.Match
import Intake.Proofs.Pattern.Compiled

/-! What a run of code can reach. A step goes from an address and a place to the next ones;
every way that exploring finds is a sequence of steps to the end of the code, so what steps
keep holds of every match. In particular a match is a slice of the text, made of characters
that the code takes. -/
namespace Intake.Pattern

namespace Place

def next (pl : Place) (c : Char) (rest : Text) : Place := ⟨pl.offset + c.utf8Size, some c, rest⟩

def step? (set : CharSet) (pl : Place) : Option Place :=
  match pl.rest with
  | [] => none
  | c :: rest => if set.holds c then some (pl.next c rest) else none

end Place

inductive Step (code : Array Instr) : Nat → Place → Nat → Place → Prop where
  | take {a set pl pl'} (here : code[a]? = some (.take set)) (taken : pl.step? set = some pl') :
      Step code a pl (a + 1) pl'
  | test {a e pl} (here : code[a]? = some (.test e)) (meets : pl.meets e = true) :
      Step code a pl (a + 1) pl
  | mark {a index closes pl} (here : code[a]? = some (.mark index closes)) :
      Step code a pl (a + 1) pl
  | jump {a target pl} (here : code[a]? = some (.jump target)) : Step code a pl target pl
  | preferred {a p q pl} (here : code[a]? = some (.fork p q)) : Step code a pl p pl
  | other {a p q pl} (here : code[a]? = some (.fork p q)) : Step code a pl q pl

/- What an instruction has a step do. -/
def Instr.Allows (a : Nat) (pl : Place) (b : Nat) (pl' : Place) : Instr → Prop
  | .take set => b = a + 1 ∧ pl.step? set = some pl'
  | .test e => b = a + 1 ∧ pl.meets e = true ∧ pl' = pl
  | .mark .. => b = a + 1 ∧ pl' = pl
  | .jump target => b = target ∧ pl' = pl
  | .fork p q => (b = p ∨ b = q) ∧ pl' = pl

theorem stepAllows {code : Array Instr} {a b : Nat} {pl pl' : Place} {i : Instr}
    (here : code[a]? = some i) : Step code a pl b pl' ↔ i.Allows a pl b pl' := by
  have one : ∀ {j}, code[a]? = some j → j = i := fun there => Option.some.inj (there.symm.trans here)
  constructor
  · intro step
    cases step with
    | take there taken => cases one there; exact ⟨rfl, taken⟩
    | test there meets => cases one there; exact ⟨rfl, meets, rfl⟩
    | mark there => cases one there; exact ⟨rfl, rfl⟩
    | jump there => cases one there; exact ⟨rfl, rfl⟩
    | preferred there => cases one there; exact ⟨.inl rfl, rfl⟩
    | other there => cases one there; exact ⟨.inr rfl, rfl⟩
  · intro allows
    cases i with
    | take set => obtain ⟨rfl, taken⟩ := allows; exact .take here taken
    | test e => obtain ⟨rfl, meets, rfl⟩ := allows; exact .test here meets
    | mark index closes => obtain ⟨rfl, rfl⟩ := allows; exact .mark here
    | jump target => obtain ⟨rfl, rfl⟩ := allows; exact .jump here
    | fork p q =>
      obtain ⟨rfl | rfl, rfl⟩ := allows
      · exact .preferred here
      · exact .other here

inductive Reaches (code : Array Instr) : Nat → Place → Nat → Place → Prop where
  | here {a pl} : Reaches code a pl a pl
  | step {a pl b pl' c pl''} (first : Step code a pl b pl') (rest : Reaches code b pl' c pl'') :
      Reaches code a pl c pl''

theorem stepTaken {set : CharSet} {pl pl' : Place} (h : pl.step? set = some pl') :
    ∃ c rest, pl.rest = c :: rest ∧ set.holds c = true ∧ pl' = pl.next c rest := by
  unfold Place.step? at h
  split at h
  · cases h
  · rename_i c rest ahead
    split at h
    · rename_i holds
      exact ⟨c, rest, ahead, holds, (Option.some.inj h).symm⟩
    · cases h

/- A way that leads from an address and a place to where the code ends. -/
def Ends (code : Array Instr) (a : Nat) (pl : Place) (way : Way) : Prop :=
  ∃ b pl', Reaches code a pl b pl' ∧ code[b]? = none ∧ way.stop = pl'.offset

theorem endsStep {code : Array Instr} {a b : Nat} {pl pl' : Place} {way : Way}
    (first : Step code a pl b pl') (ends : Ends code b pl' way) : Ends code a pl way := by
  obtain ⟨c, pl'', reaches, finish, stop⟩ := ends
  exact ⟨c, pl'', .step first reaches, finish, stop⟩

theorem exploreAtEnds {code : Array Instr} {pl : Place}
    {onward : CharSet → Nat → Met → Option Way × Met}
    (onwardEnds : ∀ set a met way met', onward set a met = (some way, met') →
      ∃ pl', pl.step? set = some pl' ∧ Ends code a pl' way)
    {fuel a : Nat} {met met' : Met} {way : Way}
    (found : exploreAt code pl onward fuel a met = (some way, met')) : Ends code a pl way := by
  induction fuel generalizing a met met' way with
  | zero => simp [exploreAt] at found
  | succ fuel ih =>
    unfold exploreAt at found
    split at found
    · rename_i finish
      obtain ⟨rfl, -⟩ := Prod.mk.inj found |>.imp_left Option.some.inj
      exact ⟨a, pl, .here, finish, rfl⟩
    · rename_i set here
      obtain ⟨pl', taken, ends⟩ := onwardEnds set (a + 1) met way met' found
      exact endsStep (.take here taken) ends
    · rename_i e here
      split at found
      · rename_i meets
        exact endsStep (.test here meets) (ih found)
      · cases found
    · rename_i index closes here
      cases inner : exploreAt code pl onward fuel (a + 1) met with
      | mk way' met'' =>
        rw [inner] at found
        cases way' with
        | none => simp at found
        | some way' =>
          have ends := endsStep (.mark here) (ih inner)
          obtain ⟨rfl, -⟩ := Prod.mk.inj found |>.imp_left Option.some.inj
          exact ends
    · rename_i target here
      exact endsStep (.jump here) (ih found)
    · rename_i p q here
      split at found
      · cases found
      · split at found
        · rename_i way' met'' inner
          obtain ⟨rfl, -⟩ := Prod.mk.inj found |>.imp_left Option.some.inj
          exact endsStep (.preferred here) (ih inner)
        · exact endsStep (.other here) (ih found)

/- A way that exploring finds leads to an address behind the code, where the way stops. -/
theorem exploreEnds {code : Array Instr} {rest : Text} {offset a : Nat} {before : Option Char}
    {met met' : Met} {way : Way} (found : explore code rest offset before a met = (some way, met')) :
    Ends code a ⟨offset, before, rest⟩ way := by
  induction rest generalizing offset a before met met' way with
  | nil => exact exploreAtEnds (fun _ _ _ _ _ onward => by cases onward) found
  | cons c rest ih =>
    refine exploreAtEnds (fun set a met way met' onward => ?_) found
    split at onward
    · rename_i holds
      exact ⟨⟨offset + c.utf8Size, some c, rest⟩, by simp [Place.step?, holds, Place.next], ih onward⟩
    · cases onward

/- A character that some instruction takes. -/
def Takes (code : Array Instr) (c : Char) : Prop :=
  ∃ (a : Nat) (set : CharSet), code[a]? = some (.take set) ∧ set.holds c = true

theorem takesMade {takes : CharSet → Prop} {tests : Edge → Prop} {p : Pattern}
    (made : Made takes tests p) {c : Char} (taken : Takes p.matcher.code c) :
    ∃ set, takes set ∧ set.holds c = true := by
  obtain ⟨a, set, here, holds⟩ := taken
  exact ⟨set, codeMade made 0 a (.take set) (by simpa [matcher] using here), holds⟩

/- Going on means reading a piece of the text, character by character. -/
theorem reachesText {code : Array Instr} {a b : Nat} {pl pl' : Place}
    (reaches : Reaches code a pl b pl') :
    ∃ read, pl.rest = read ++ pl'.rest ∧ pl'.offset = pl.offset + Text.size read ∧
      ∀ c ∈ read, Takes code c := by
  induction reaches with
  | here => exact ⟨[], rfl, rfl, by simp⟩
  | @step a pl b pl' c pl'' first rest ih =>
    obtain ⟨read, ahead, offset, taken⟩ := ih
    cases first with
    | take here step =>
      obtain ⟨d, after, same, holds, rfl⟩ := stepTaken step
      refine ⟨d :: read, by simp only [same, List.cons_append, ← ahead]; rfl, ?_, ?_⟩
      · rw [offset]; simp [Place.next]; omega
      · intro e he
        rcases List.mem_cons.1 he with rfl | he
        · exact ⟨_, _, here, holds⟩
        · exact taken e he
    | test | mark | jump | preferred | other => exact ⟨read, ahead, offset, taken⟩

theorem exploreText {code : Array Instr} {rest : Text} {offset a : Nat} {before : Option Char}
    {met met' : Met} {way : Way} (found : explore code rest offset before a met = (some way, met')) :
    ∃ read after, rest = read ++ after ∧ way.stop = offset + Text.size read ∧
      ∀ c ∈ read, Takes code c := by
  obtain ⟨b, pl', reaches, -, stop⟩ := exploreEnds found
  obtain ⟨read, ahead, offset, taken⟩ := reachesText reaches
  exact ⟨read, pl'.rest, ahead, stop.trans offset, taken⟩

namespace Matcher

/- A match stands where its text does. -/
structure Sits (code : Array Instr) (t : Text) (f : Found) : Prop where
  within : t.Within f.span
  slice : t.slice f.span = f.text
  taken : ∀ c ∈ f.text, Takes code c

theorem sitsWay {code : Array Instr} {t before rest : Text} {c : Option Char} {met met' : Met}
    {way : Way} (whole : t = before ++ rest)
    (found : explore code rest (Text.size before) c 0 met = (some way, met')) :
    Sits code t (.ofWay (Text.size before) rest way) := by
  obtain ⟨read, after, ahead, stop, taken⟩ := exploreText found
  have text : (Found.ofWay (Text.size before) rest way).text = read := by
    simp [Found.ofWay, stop, ahead]
  have all : t = before ++ read ++ after := by simp [whole, ahead]
  have finish : (Found.ofWay (Text.size before) rest way).span.stop =
      Text.size before + Text.size read := by
    simp [Found.span, Found.stop, text]; rfl
  exact ⟨⟨_, _, _, all, rfl, finish⟩, by rw [Text.sliceWithin all rfl finish, text],
    by rwa [text]⟩

theorem sitsFrom {m : Matcher} {last : Option Nat} {met : Met} {t : Text} (before : Text)
    {rest : Text} {c : Option Char} (whole : t = before ++ rest) :
    ∀ f ∈ m.findFrom last met (Text.size before) c rest, Sits m.code t f := by
  induction rest generalizing last met before c with
  | nil =>
    intro f hf
    unfold findFrom at hf
    split at hf
    · simp at hf
    · split at hf
      · simp at hf
      · rename_i way found
        split at hf
        · simp at hf
        · rcases List.mem_singleton.1 hf with rfl
          exact sitsWay whole (Prod.ext found rfl)
  | cons d rest ih =>
    have onward : t = (before ++ [d]) ++ rest := by simp [whole]
    have offset : Text.size before + d.utf8Size = Text.size (before ++ [d]) := by simp
    intro f hf
    unfold findFrom at hf
    rw [offset] at hf
    split at hf
    · exact ih _ onward f hf
    · split at hf
      · exact ih _ onward f hf
      · rename_i way _ found
        split at hf
        · exact ih _ onward f hf
        · rcases List.mem_cons.1 hf with rfl | hf
          · exact sitsWay whole found
          · exact ih _ onward f hf

/- Every match lies within the text, from a break to a break. -/
theorem findAllSits (m : Matcher) (t : Text) : ∀ f ∈ m.findAll t, Sits m.code t f :=
  sitsFrom [] rfl

end Matcher

end Intake.Pattern
