import Intake.Proofs.Pattern.Characters
import Intake.Proofs.Pattern.Reach
import Intake.Proofs.Text.Joined

/-! Searching line by line. A pattern that takes no newline and does not ask for the ends of the
text finds in joined lines what it finds in each of them: a run that starts within a line goes
as it does in the line alone, only further on. -/
namespace Intake.Pattern
open Text (OneLine joinLines)

def Way.shift (distance : Nat) (w : Way) : Way :=
  ⟨w.stop + distance, w.marks.map (fun k => { k with offset := k.offset + distance })⟩

def Found.shift (distance : Nat) (f : Found) : Found :=
  ⟨f.start + distance, f.text, f.marks.map (fun k => { k with offset := k.offset + distance })⟩

/- Forks met in a text and in a line of it alone, that begins `distance` bytes on: along the line
they are the same, and none was met behind it. -/
structure Mirrors (code : Array Instr) (distance length : Nat) (met met' : Met) : Prop where
  along : ∀ a, a < code.size → ∀ o, o ≤ length →
    met.contains (visit code a (o + distance)) = met'.contains (visit code a o)
  behind : ∀ a, a < code.size → ∀ o, length < o →
    met.contains (visit code a (o + distance)) = false

def Mirrored (code : Array Instr) (distance length : Nat) (x x' : Option Way × Met) : Prop :=
  x.1 = x'.1.map (Way.shift distance) ∧ Mirrors code distance length x.2 x'.2

section Mirrors
variable {code : Array Instr} {distance length : Nat} {met met' : Met}

theorem visitSame {a b m n : Nat} (ha : a < code.size) (hb : b < code.size) :
    (visit code a m == visit code b n) = (decide (a = b) && decide (m = n)) := by
  rw [Bool.eq_iff_iff, beq_iff_eq, Bool.and_eq_true, decide_eq_true_eq, decide_eq_true_eq]
  constructor
  · exact visitInjective ha hb
  · rintro ⟨rfl, rfl⟩; rfl

theorem mirrorsInsert (mirrors : Mirrors code distance length met met') {a o : Nat}
    (ha : a < code.size) (ho : o ≤ length) :
    Mirrors code distance length (met.insert (visit code a (o + distance)))
      (met'.insert (visit code a o)) := by
  constructor
  · intro b hb p hp
    have offsets : decide (o + distance = p + distance) = decide (o = p) := by
      rw [Bool.eq_iff_iff, decide_eq_true_eq, decide_eq_true_eq]; omega
    rw [Std.HashSet.contains_insert, Std.HashSet.contains_insert, visitSame ha hb, visitSame ha hb,
      offsets, mirrors.along b hb p hp]
  · intro b hb p hp
    have differ : decide (o + distance = p + distance) = false := by
      rw [decide_eq_false_iff_not]; omega
    rw [Std.HashSet.contains_insert, visitSame ha hb, differ, Bool.and_false, Bool.false_or,
      mirrors.behind b hb p hp]

/- What was met up to the end of a line is of no use in the next one. -/
theorem mirrorsNext (mirrors : Mirrors code distance length met met') (further : Nat) :
    Mirrors code (distance + length + 1) further met ∅ := by
  have none : ∀ a, a < code.size → ∀ o,
      met.contains (visit code a (o + (distance + length + 1))) = false := by
    intro a ha o
    have offset : o + (distance + length + 1) = (o + length + 1) + distance := by omega
    rw [offset]
    exact mirrors.behind a ha _ (by omega)
  exact ⟨fun a ha o _ => by rw [none a ha o, Std.HashSet.contains_empty], fun a ha o _ => none a ha o⟩

theorem mirrorsNone : Mirrors code distance length ∅ ∅ :=
  ⟨fun _ _ _ _ => by rw [Std.HashSet.contains_empty, Std.HashSet.contains_empty],
    fun _ _ _ _ => Std.HashSet.contains_empty⟩

end Mirrors

/- What stands beside a place in a text, and in the line alone. -/
def Beside (c c' : Option Char) : Prop := c = c' ∨ c = some '\n' ∧ c' = none

theorem meetsBeside {pl pl' : Place} (before : Beside pl.before pl'.before)
    (ahead : Beside pl.rest.head? pl'.rest.head?) {e : Edge} (start : e ≠ .textStart)
    (stop : e ≠ .textEnd) : pl.meets e = pl'.meets e := by
  have word : ∀ {c c'}, Beside c c' → Place.inWord c = Place.inWord c' := by
    rintro c c' (rfl | ⟨rfl, rfl⟩)
    · rfl
    · rw [Place.inWord, Place.inWord, Option.any_some, CharSet.wordNewline, Option.any_none]
  have newline : ∀ {c c'}, Beside c c' → c.all (· == '\n') = c'.all (· == '\n') := by
    rintro c c' (rfl | ⟨rfl, rfl⟩) <;> rfl
  cases e with
  | textStart => exact absurd rfl start
  | textEnd => exact absurd rfl stop
  | lineStart => exact newline before
  | lineEnd => exact newline ahead
  | word | notWord => simp only [Place.meets, word before, word ahead]

/- Code that reads no newline and tests nothing but what lies within a line. -/
structure WithinLines (code : Array Instr) : Prop where
  takes : ∀ (a : Nat) (set : CharSet), code[a]? = some (.take set) → set.holds '\n' = false
  tests : ∀ (a : Nat) (e : Edge), code[a]? = some (.test e) → e ≠ .textStart ∧ e ≠ .textEnd

section Explore
variable {code : Array Instr} (within : WithinLines code) {distance length : Nat}
include within

theorem exploreAtMirrors (pl pl' : Place) (offset : pl.offset = pl'.offset + distance)
    (inLine : pl'.offset ≤ length) (before : Beside pl.before pl'.before)
    (ahead : Beside pl.rest.head? pl'.rest.head?)
    {onward onward' : CharSet → Nat → Met → Option Way × Met}
    (onwardMirrors : ∀ set a met met', set.holds '\n' = false → Mirrors code distance length met met' →
      Mirrored code distance length (onward set a met) (onward' set a met'))
    (fuel a : Nat) {met met' : Met} (mirrors : Mirrors code distance length met met') :
    Mirrored code distance length (exploreAt code pl onward fuel a met)
      (exploreAt code pl' onward' fuel a met') := by
  induction fuel generalizing a met met' with
  | zero => exact ⟨rfl, mirrors⟩
  | succ fuel ih =>
    unfold exploreAt
    cases here : code[a]? with
    | none => exact ⟨by simp [Way.shift, offset], mirrors⟩
    | some i =>
      have address : a < code.size := (Array.getElem?_eq_some_iff.1 here).1
      cases i with
      | take set => exact onwardMirrors set (a + 1) _ _ (within.takes a set here) mirrors
      | test e =>
        obtain ⟨start, stop⟩ := within.tests a e here
        simp only [meetsBeside before ahead start stop]
        split
        · exact ih (a + 1) mirrors
        · exact ⟨rfl, mirrors⟩
      | mark index closes =>
        obtain ⟨same, after⟩ := ih (a + 1) mirrors
        refine ⟨?_, after⟩
        simp only [same, Option.map_map, offset]
        rfl
      | jump target => exact ih target mirrors
      | fork p q =>
        simp only [offset, mirrors.along a address pl'.offset inLine]
        split
        · exact ⟨rfl, mirrors⟩
        · obtain ⟨same, after⟩ := ih p (mirrorsInsert mirrors address inLine)
          cases left : exploreAt code pl onward fuel p (met.insert (visit code a (pl'.offset + distance))) with
          | mk way met₁ =>
            cases right : exploreAt code pl' onward' fuel p (met'.insert (visit code a pl'.offset)) with
            | mk way' met₁' =>
              rw [left, right] at same after
              cases way' with
              | none =>
                cases same
                exact ih q after
              | some way' =>
                cases same
                exact ⟨rfl, after⟩

/- What may follow a line: nothing, or a newline and what is behind it. -/
def Closes (after : Text) : Prop := after = [] ∨ ∃ u, after = '\n' :: u

theorem exploreMirrors (rest : Text) {after : Text} (closes : Closes after) (offset a : Nat)
    (inLine : offset + Text.size rest ≤ length) {before before' : Option Char}
    (beside : Beside before before') {met met' : Met}
    (mirrors : Mirrors code distance length met met') :
    Mirrored code distance length (explore code (rest ++ after) (offset + distance) before a met)
      (explore code rest offset before' a met') := by
  induction rest generalizing offset a before before' met met' with
  | nil =>
    rcases closes with rfl | ⟨u, rfl⟩
    · rw [List.nil_append]
      unfold explore
      refine exploreAtMirrors within ⟨offset + distance, before, []⟩ ⟨offset, before', []⟩ rfl inLine beside
        (.inl rfl) ?_ _ a mirrors
      exact fun set b met met' _ mirrors => ⟨rfl, mirrors⟩
    · rw [List.nil_append]
      unfold explore
      refine exploreAtMirrors within ⟨offset + distance, before, '\n' :: u⟩ ⟨offset, before', []⟩ rfl
        inLine beside (.inr ⟨rfl, rfl⟩) ?_ _ a mirrors
      intro set b met met' passes mirrors
      simp only [passes]
      exact ⟨rfl, mirrors⟩
  | cons c rest ih =>
    rw [Text.sizeCons] at inLine
    rw [List.cons_append]
    unfold explore
    have here : offset ≤ length := by omega
    refine exploreAtMirrors within ⟨offset + distance, before, c :: (rest ++ after)⟩
      ⟨offset, before', c :: rest⟩ rfl here beside (.inl rfl) ?_ _ a mirrors
    intro set b met met' _ mirrors
    split
    · have onward : offset + distance + c.utf8Size = offset + c.utf8Size + distance := by omega
      rw [onward]
      exact ih (offset + c.utf8Size) b (by omega) (.inl rfl) mirrors
    · exact ⟨rfl, mirrors⟩

end Explore

/- Where the last match ended, in a text and in the line alone. -/
structure Follows (distance length : Nat) (last last' : Option Nat) : Prop where
  bound : ∀ e ∈ last, e ≤ distance + length
  beyond : ∀ o, last.any (o + distance < ·) = last'.any (o < ·)
  here : ∀ o, (last == some (o + distance)) = (last' == some o)

theorem followsNone {distance : Nat} (length : Nat) {last : Option Nat}
    (earlier : ∀ e ∈ last, e < distance) : Follows distance length last none := by
  cases last with
  | none => exact ⟨by simp, fun _ => rfl, fun _ => rfl⟩
  | some e =>
    have before : e < distance := earlier e rfl
    refine ⟨fun e' he => ?_, fun o => ?_, fun o => ?_⟩
    · cases he
      omega
    · simp only [Option.any_some, Option.any_none, decide_eq_false_iff_not]
      omega
    · have differ : e ≠ o + distance := by omega
      simpa using differ

theorem followsWay {distance length stop : Nat} (inLine : stop ≤ length) :
    Follows distance length (some (stop + distance)) (some stop) := by
  refine ⟨fun e he => ?_, fun o => ?_, fun o => ?_⟩
  · cases he
    omega
  · simp only [Option.any_some]
    rw [Bool.eq_iff_iff, decide_eq_true_eq, decide_eq_true_eq]; omega
  · rw [Bool.eq_iff_iff, beq_iff_eq, beq_iff_eq, Option.some_inj, Option.some_inj]
    omega

/- What is found behind a line, starting anew behind its newline. -/
inductive Behind (m : Matcher) (start : Nat) : Text → List Found → Prop where
  | nothing : Behind m start [] []
  | lines {u last met} (earlier : ∀ e ∈ last, e < start) (fresh : ∀ n, Mirrors m.code start n met ∅) :
      Behind m start ('\n' :: u) (m.findFrom last met start (some '\n') u)

namespace Matcher

/- What each of consecutive lines holds alone, moved to where the line stands. -/
def findLines (m : Matcher) : Nat → List Text → List Found
  | _, [] => []
  | start, l :: ls => (m.findAll l).map (Found.shift start) ++ findLines m (start + Text.size l + 1) ls

theorem findLinesLength (m : Matcher) (start : Nat) (ls : List Text) :
    (m.findLines start ls).length = (ls.flatMap m.findAll).length := by
  induction ls generalizing start with
  | nil => rfl
  | cons l ls ih =>
    rw [findLines, List.length_append, List.length_map, ih, List.flatMap_cons, List.length_append]

/- What a search at one place leaves: the way it found, where the last match ended, and the
forks that remain of no use. -/
def attempt (m : Matcher) (last : Option Nat) (met : Met) (offset : Nat) (before : Option Char)
    (t : Text) : Option Way × Option Nat × Met :=
  if last.any (offset < ·) then (none, last, met)
  else match explore m.code t offset before 0 met with
    | (none, met) => (none, last, met)
    | (some way, _) =>
      if last == some offset && way.stop == offset then (none, last, ∅)
      else (some way, some way.stop, ∅)

section Attempt
variable (m : Matcher) (last : Option Nat) (met : Met) (offset : Nat) (before : Option Char)

theorem findFromNil : m.findFrom last met offset before [] =
    ((m.attempt last met offset before []).1.map (.ofWay offset [])).toList := by
  unfold findFrom attempt
  split
  · rfl
  · cases explore m.code [] offset before 0 met with
    | mk way met' =>
      cases way with
      | none => rfl
      | some way =>
        simp only
        split <;> rfl

theorem findFromCons (c : Char) (rest : Text) : m.findFrom last met offset before (c :: rest) =
    ((m.attempt last met offset before (c :: rest)).1.map (.ofWay offset (c :: rest))).toList ++
      m.findFrom (m.attempt last met offset before (c :: rest)).2.1
        (m.attempt last met offset before (c :: rest)).2.2 (offset + c.utf8Size) (some c) rest := by
  rw [findFrom]
  unfold attempt
  split
  · rfl
  · cases explore m.code (c :: rest) offset before 0 met with
    | mk way met' =>
      cases way with
      | none => rfl
      | some way =>
        simp only
        split <;> rfl

end Attempt

end Matcher

section Find
variable {m : Matcher} (within : WithinLines m.code) {distance length : Nat}
include within

theorem attemptMirrors (rest : Text) {after : Text} (closes : Closes after) (offset : Nat)
    (inLine : offset + Text.size rest = length) {before before' : Option Char}
    (beside : Beside before before') {last last' : Option Nat}
    (follows : Follows distance length last last') {met met' : Met}
    (mirrors : Mirrors m.code distance length met met') :
    let x := m.attempt last met (offset + distance) before (rest ++ after)
    let x' := m.attempt last' met' offset before' rest
    x.1.map (.ofWay (offset + distance) (rest ++ after)) =
        (x'.1.map (.ofWay offset rest)).map (Found.shift distance) ∧
      Follows distance length x.2.1 x'.2.1 ∧ Mirrors m.code distance length x.2.2 x'.2.2 := by
  obtain ⟨same, further⟩ := exploreMirrors within rest closes offset 0 (by omega) beside mirrors
  simp only [Matcher.attempt, follows.beyond, follows.here]
  split
  · exact ⟨rfl, follows, mirrors⟩
  · cases left : explore m.code (rest ++ after) (offset + distance) before 0 met with
    | mk way met₁ =>
      cases right : explore m.code rest offset before' 0 met' with
      | mk way' met₁' =>
        rw [left, right] at same further
        cases way' with
        | none =>
          cases same
          exact ⟨rfl, follows, further⟩
        | some way' =>
          cases same
          have stops : (way'.stop + distance == offset + distance) = (way'.stop == offset) := by
            rw [Bool.eq_iff_iff, beq_iff_eq, beq_iff_eq]; omega
          simp only [Way.shift, stops]
          split
          · exact ⟨rfl, follows, mirrorsNone⟩
          · obtain ⟨read, behind, ahead, stop, -⟩ := exploreText right
            have bound : way'.stop ≤ length := by
              rw [ahead, Text.sizeAppend] at inLine; omega
            have far : way'.stop + distance - (offset + distance) = Text.size read := by omega
            have near : way'.stop - offset = Text.size read := by omega
            refine ⟨?_, followsWay bound, mirrorsNone⟩
            simp only [Option.map_some, Found.ofWay, Found.shift, far, near, ahead, List.append_assoc,
              Text.firstAppend]

/- Along a line the same is found as in the line alone, only further on; what is found behind it
comes on top. -/
theorem findFromLine (rest : Text) {after : Text} (closes : Closes after) (offset : Nat)
    (inLine : offset + Text.size rest = length) {before before' : Option Char}
    (beside : Beside before before') {last last' : Option Nat}
    (follows : Follows distance length last last') {met met' : Met}
    (mirrors : Mirrors m.code distance length met met') :
    ∃ fs, Behind m (distance + length + 1) after fs ∧
      m.findFrom last met (offset + distance) before (rest ++ after) =
        (m.findFrom last' met' offset before' rest).map (Found.shift distance) ++ fs := by
  induction rest generalizing offset before before' last last' met met' with
  | nil =>
    obtain ⟨found, onward, further⟩ :=
      attemptMirrors within [] closes offset inLine beside follows mirrors
    rw [List.nil_append] at found onward further ⊢
    rw [Matcher.findFromNil, ← Option.toList_map, ← found]
    rcases closes with rfl | ⟨u, rfl⟩
    · refine ⟨[], .nothing, ?_⟩
      rw [Matcher.findFromNil, List.append_nil]
    · have next : offset + distance + ('\n').utf8Size = distance + length + 1 := by
        have newline : ('\n').utf8Size = 1 := rfl
        have ends : offset = length := inLine
        omega
      have earlier : ∀ e ∈ (m.attempt last met (offset + distance) before ('\n' :: u)).2.1,
          e < distance + length + 1 := fun e he => Nat.lt_succ_of_le (onward.bound e he)
      refine ⟨_, .lines earlier (mirrorsNext further), ?_⟩
      rw [Matcher.findFromCons, next]
  | cons c rest ih =>
    obtain ⟨found, onward, further⟩ :=
      attemptMirrors within (c :: rest) closes offset inLine beside follows mirrors
    rw [Text.sizeCons] at inLine
    obtain ⟨fs, behind, later⟩ := ih (offset + c.utf8Size) (by omega) (.inl (Eq.refl (some c)))
      onward further
    have next : offset + distance + c.utf8Size = offset + c.utf8Size + distance := by omega
    refine ⟨fs, behind, ?_⟩
    rw [List.cons_append] at found later ⊢
    rw [Matcher.findFromCons, Matcher.findFromCons, List.map_append, ← Option.toList_map, ← found,
      next, later, List.append_assoc]

/- Joined lines from the start of one of them on. -/
theorem findFromLines {ls : List Text} (some_ : ls ≠ []) (start : Nat)
    {before : Option Char} (beside : Beside before none) {last : Option Nat}
    (earlier : ∀ e ∈ last, e < start) {met : Met} (fresh : ∀ n, Mirrors m.code start n met ∅) :
    m.findFrom last met start before (joinLines ls) = m.findLines start ls := by
  induction ls generalizing start before last met with
  | nil => exact absurd rfl some_
  | cons l ls ih =>
    by_cases more : ls = []
    · subst more
      obtain ⟨fs, behind, found⟩ := findFromLine within l (.inl rfl) 0 (Nat.zero_add _) beside
        (followsNone (Text.size l) earlier) (fresh _)
      cases behind
      rw [List.append_nil, Nat.zero_add] at found
      exact found
    · obtain ⟨fs, behind, found⟩ := findFromLine within l (.inr ⟨joinLines ls, rfl⟩) 0
        (Nat.zero_add _) beside (followsNone (Text.size l) earlier) (fresh _)
      rw [Nat.zero_add] at found
      cases behind with
      | lines earlier fresh =>
        rw [Text.joinLinesCons l more, found, ih more _ (.inr ⟨rfl, rfl⟩) earlier fresh,
          Matcher.findLines, Matcher.findAll]

end Find

/- A pattern whose sets hold no newline and which does not ask for the ends of the text. -/
def WithinLine (p : Pattern) : Prop :=
  Made (fun set => set.holds '\n' = false) (fun e => e ≠ .textStart ∧ e ≠ .textEnd) p

theorem withinLines {p : Pattern} (within : WithinLine p) : WithinLines p.matcher.code := by
  have made := codeMade within 0
  exact ⟨fun a set here => made a (.take set) (by simpa [matcher] using here),
    fun a e here => made a (.test e) (by simpa [matcher] using here)⟩

/- In joined lines the same is found as in each of them where it stands. -/
theorem findAllLines {p : Pattern} (within : WithinLine p) {ls : List Text} (some_ : ls ≠ []) :
    p.matcher.findAll (joinLines ls) = p.matcher.findLines 0 ls :=
  findFromLines (withinLines within) some_ 0 (.inl rfl) (by simp) (fun _ => mirrorsNone)

end Intake.Pattern
