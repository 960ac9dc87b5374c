import Intake.Proofs.Pattern.LineWise
import Intake.Proofs.Safety.Checked
import Intake.Signature.Detector

/-! Detection, checked. Words and heads of lines are counted one by one in a table, in which every
head is found again; characters, markers and lines are counted, and the mean is taken over lines of
which there is at least one. All counts are bounded by the size of the text. -/
namespace Intake

namespace Frequency
open Checked (sum value ratio length sumOk valueOk ratioOk lengthOk okBind)

def checkedTally (counts : Table Text Nat) : List Text → Checked (Table Text Nat)
  | [] => .ok counts
  | w :: rest => do
    let n ← sum ((counts.get? w).getD 0) 1
    checkedTally (counts.set w n) rest

def checkedEntropy (ws : List Text) : Checked Float :=
  if ws.isEmpty then .ok 0.0
  else do
    let counts ← checkedTally .empty ws
    .ok (counts.values.foldl (fun sum count => sum + share ws.length count) (-0.0))

def checkedHeads (chars : Nat) : List Text → Checked (List Text)
  | [] => .ok []
  | l :: rest => do
    let n ← length l
    let later ← checkedHeads chars rest
    .ok (if chars < n then l.take chars :: later else later)

def checkedRepeated (counts : Table Text Nat) (n : Nat) : List Text → Checked Nat
  | [] => .ok n
  | h :: rest => do
    let times ← value counts h
    let n ← if 1 < times then sum n 1 else .ok n
    checkedRepeated counts n rest

def checkedRepeatability (chars : Nat) (lines : List Text) : Checked Float := do
  let hs ← checkedHeads chars lines
  if hs.isEmpty then .ok 0.0
  else
    let counts ← checkedTally .empty hs
    let repeated ← checkedRepeated counts 0 hs
    ratio repeated hs.length

/- The table counts the words that were met. -/
theorem tallyFrom {counts : Table Text Nat} {before rest : List Text}
    (known : ∀ w, counts.get? w = if w ∈ before then some (before.count w) else none)
    (fits : before.length + rest.length < UInt64.size) :
    checkedTally counts rest = .ok (tally (before ++ rest)) := by
  induction rest generalizing counts before with
  | nil =>
    have same : counts = tally before := Table.sameLookups fun w => by rw [known, getTally]
    rw [List.append_nil, same]
    rfl
  | cons w rest ih =>
    rw [List.length_cons] at fits
    have times : (counts.get? w).getD 0 = before.count w := by
      rw [known]
      split
      · rfl
      · rename_i absent
        exact (List.count_eq_zero.2 absent).symm
    have few : before.count w ≤ before.length := List.count_le_length
    have one : before.count w + 1 < UInt64.size := by omega
    have next : ∀ v, (counts.set w (before.count w + 1)).get? v =
        if v ∈ before ++ [w] then some ((before ++ [w]).count v) else none := by
      intro v
      rw [Table.getSet, known, List.count_append, List.count_singleton]
      by_cases same : v = w
      · subst same
        simp
      · have other : ¬ compare v w = .eq := fun equal => same (Std.LawfulEqOrd.eq_of_compare equal)
        have apart : (w == v) = false := beq_eq_false_iff_ne.2 fun equal => same equal.symm
        simp [same, other, apart]
    have room : (before ++ [w]).length + rest.length < UInt64.size := by
      rw [List.length_append, List.length_singleton]; omega
    have later := ih next room
    rw [List.append_assoc, List.singleton_append] at later
    simp only [checkedTally, times, sumOk one, okBind, later]

theorem tallySafe {ws : List Text} (fits : ws.length < UInt64.size) :
    checkedTally .empty ws = .ok (tally ws) := by
  have room : ([] : List Text).length + ws.length < UInt64.size := by
    rw [List.length_nil]; omega
  exact tallyFrom (fun w => by rw [Table.getEmpty, if_neg List.not_mem_nil]) room

theorem entropySafe {ws : List Text} (fits : ws.length < UInt64.size) :
    checkedEntropy ws = .ok (entropy ws) := by
  rw [checkedEntropy, entropy]
  split
  · rfl
  · rw [tallySafe fits, okBind]

theorem headsSafe {chars : Nat} {lines : List Text} (fits : ∀ l ∈ lines, l.length < UInt64.size) :
    checkedHeads chars lines = .ok (heads chars lines) := by
  induction lines with
  | nil => rfl
  | cons l rest ih =>
    have later := ih fun k hk => fits k (List.mem_cons_of_mem _ hk)
    simp only [checkedHeads, lengthOk (fits l List.mem_cons_self), okBind, later, heads]
    by_cases long : chars < l.length <;> simp [long]

/- Every head stands in the table. -/
theorem repeatedFrom {hs rest : List Text} {n : Nat} (members : ∀ h ∈ rest, h ∈ hs)
    (fits : n + rest.length < UInt64.size) :
    checkedRepeated (tally hs) n rest =
      .ok (n + rest.countP (fun h => decide (1 < hs.count h))) := by
  induction rest generalizing n with
  | nil => rfl
  | cons h rest ih =>
    rw [List.length_cons] at fits
    have member : h ∈ hs := members h List.mem_cons_self
    have found : (tally hs).get? h = some (hs.count h) := by rw [getTally, if_pos member]
    have onward := fun n => ih (n := n) fun k hk => members k (List.mem_cons_of_mem _ hk)
    simp only [checkedRepeated, valueOk found, okBind, List.countP_cons, decide_eq_true_eq]
    by_cases more : 1 < hs.count h
    · have one : n + 1 < UInt64.size := by omega
      simp only [if_pos more, sumOk one, okBind, onward (n + 1) (by omega)]
      rw [Nat.add_assoc, Nat.add_comm 1]
    · simp only [if_neg more, onward n (by omega), Nat.add_zero]

theorem repeatabilitySafe {chars : Nat} {lines : List Text}
    (fits : ∀ l ∈ lines, l.length < UInt64.size) (few : lines.length < UInt64.size) :
    checkedRepeatability chars lines = .ok (repeatability chars lines) := by
  have short : (heads chars lines).length ≤ lines.length := by
    rw [heads, List.length_map]; exact List.length_filter_le _ _
  have room : (heads chars lines).length < UInt64.size := by omega
  simp only [checkedRepeatability, headsSafe fits, okBind, repeatability]
  split
  · rfl
  · rename_i some
    have start : 0 + (heads chars lines).length < UInt64.size := by omega
    have counted := repeatedFrom (fun h (hh : h ∈ heads chars lines) => hh) start
    have positive : (heads chars lines).length ≠ 0 := by
      rwa [List.isEmpty_iff_length_eq_zero] at some
    rw [tallySafe room, okBind, counted, okBind, ratioOk positive, Nat.zero_add,
      repeatedHeadsCount]

end Frequency

namespace Detector
open Checked (sum ratio count length total sumOk ratioOk countOk lengthOk totalOk mapOk okBind
  wordOfSize)
open Text (joinLines)

def checkedScan (t : Text) (lines : List Text) : Checked MarkerCounts := do
  let time ← length (Marker.time.matcher.findAll t)
  let list ← length (Marker.listItem.matcher.findAll t)
  let table ← count Marker.isTableRow lines
  let identifiers ← length (Marker.identifier.matcher.findAll t)
  .ok ⟨time, list, table, identifiers⟩

/- Lines are divided by only where there are some. -/
def checkedClassify (c : Config.Detector) (lineCount : Nat) (m : MarkerCounts) : Checked Mode :=
  if lineCount = 0 then .ok .empty
  else do
    let time ← ratio m.time lineCount
    let list ← ratio m.list lineCount
    let table ← ratio m.table lineCount
    .ok
      (if c.logMinLines.toNat < lineCount ∧ c.logTimeRatio < time then .log
      else if c.listRatio < list then .procedure
      else if c.tableRatio < table then .table
      else if Ratio.toFloat lineCount * c.identifierLineFraction < Ratio.toFloat m.identifiers then
        .technical
      else .prose)

/- How many characters there are, and how many of three kinds. -/
structure Census where
  total : Nat
  digits : Nat
  upper : Nat
  special : Nat
  deriving DecidableEq, Repr

def Census.of (t : Text) : Census :=
  ⟨t.length, t.countP (fun c => kind c == .digit), t.countP (fun c => kind c == .upper),
    t.countP (fun c => kind c == .special)⟩

def Census.add (n : Census) (c : Char) : Checked Census := do
  let total ← sum n.total 1
  match kind c with
  | .digit => do
    let digits ← sum n.digits 1
    .ok { n with total := total, digits := digits }
  | .upper => do
    let upper ← sum n.upper 1
    .ok { n with total := total, upper := upper }
  | .special => do
    let special ← sum n.special 1
    .ok { n with total := total, special := special }
  | .plain => .ok { n with total := total }

def checkedCensus (n : Census) : Text → Checked Census
  | [] => .ok n
  | c :: rest => do
    let n ← n.add c
    checkedCensus n rest

def checkedShare (part whole : Nat) : Checked Float :=
  if whole = 0 then .ok 0.0 else ratio part whole

def checkedShape (c : Config.Detector) (t : Text) (lines : List Text) : Checked Shape := do
  let markers ← checkedScan t lines
  let mode ← checkedClassify c lines.length markers
  let census ← checkedCensus ⟨0, 0, 0, 0⟩ t
  let lengths ← lines.mapM length
  let chars ← total 0 lengths
  let average ← ratio chars lines.length
  let digits ← checkedShare census.digits census.total
  let special ← checkedShare census.special census.total
  let upper ← checkedShare census.upper census.total
  .ok
    { mode := mode
      lineCount := lines.length
      averageLineLength := average
      digitRatio := digits
      specialRatio := special
      upperRatio := upper
      timeMarkers := markers.time
      listMarkers := markers.list
      tableMarkers := markers.table
      identifiers := markers.identifiers }

def checkedDistribution (c : Config.Detector) (t : Text) (lines : List Text) :
    Checked Distribution := do
  let entropy ← Frequency.checkedEntropy t.words
  let repeatability ← Frequency.checkedRepeatability c.repeatPrefixChars.toNat lines
  .ok ⟨entropy, repeatability, Frequency.vocabulary t.words⟩

def checkedSignature (c : Config.Detector) (t : Text) : Checked Signature :=
  if (contentLines t).isEmpty then .ok .empty
  else do
    let s ← checkedShape c t (contentLines t)
    let d ← checkedDistribution c t (contentLines t)
    .ok ⟨s, d, stability c s.mode d⟩

def checkedDetect (c : Config.Detector) (t : Text) : Checked (Signature × Audit) := do
  let s ← checkedSignature c t
  .ok (s, audit s (contentLines t).isEmpty)

theorem classifySafe (c : Config.Detector) (lineCount : Nat) (m : MarkerCounts) :
    checkedClassify c lineCount m = .ok (classify c lineCount m) := by
  unfold checkedClassify classify
  by_cases none : lineCount = 0
  · rw [if_pos none, if_pos none]
  · simp only [if_neg none, ratioOk none, okBind]

/- A character adds to the total and to its kind. -/
theorem addSafe (n : Census) (c : Char)
    (fits : n.total + 1 < UInt64.size ∧ n.digits ≤ n.total ∧ n.upper ≤ n.total ∧
      n.special ≤ n.total) :
    n.add c = .ok ⟨n.total + 1, n.digits + [c].countP (fun c => kind c == .digit),
      n.upper + [c].countP (fun c => kind c == .upper),
      n.special + [c].countP (fun c => kind c == .special)⟩ := by
  obtain ⟨one, digits, upper, special⟩ := fits
  have digit : n.digits + 1 < UInt64.size := by omega
  have capital : n.upper + 1 < UInt64.size := by omega
  have other : n.special + 1 < UInt64.size := by omega
  unfold Census.add
  cases found : kind c <;>
    simp [sumOk one, sumOk digit, sumOk capital, sumOk other, found]

theorem censusSafe {n : Census} {t : Text}
    (fits : n.total + t.length < UInt64.size ∧ n.digits ≤ n.total ∧ n.upper ≤ n.total ∧
      n.special ≤ n.total) :
    checkedCensus n t = .ok ⟨n.total + (Census.of t).total, n.digits + (Census.of t).digits,
      n.upper + (Census.of t).upper, n.special + (Census.of t).special⟩ := by
  induction t generalizing n with
  | nil => rfl
  | cons c t ih =>
    obtain ⟨room, digits, upper, special⟩ := fits
    rw [List.length_cons] at room
    have most : ∀ p : Char → Bool, [c].countP p ≤ 1 := fun p => List.countP_le_length
    have added := addSafe n c ⟨by omega, digits, upper, special⟩
    have split : ∀ p : Char → Bool, (c :: t).countP p = [c].countP p + t.countP p := fun p => by
      rw [← List.singleton_append, List.countP_append]
    rw [checkedCensus, added, okBind, ih]
    · simp only [Census.of, split, List.length_cons, Nat.add_assoc, Nat.add_comm 1]
    · have first := most (fun c => kind c == .digit)
      have second := most (fun c => kind c == .upper)
      have third := most (fun c => kind c == .special)
      simp only
      omega

theorem shareSafe (k : CharKind) (t : Text) :
    checkedShare (t.countP (fun c => kind c == k)) t.length = .ok (kindRatio k t) := by
  unfold checkedShare kindRatio
  by_cases empty : t = []
  · subst empty
    rfl
  · have some : t.length ≠ 0 := fun none => empty (List.length_eq_zero_iff.1 none)
    have filled : ¬ t.isEmpty = true := by rwa [List.isEmpty_iff]
    rw [if_neg some, if_neg filled, ratioOk some]

theorem fieldsLength (separates : Char → Bool) (t : Text) :
    (Text.fields separates t).length ≤ t.length + 1 := by
  induction t with
  | nil => exact Nat.le_refl _
  | cons c t ih =>
    rw [List.length_cons]
    unfold Text.fields
    split
    · rw [List.length_cons]; omega
    · split
      · simp
      · rename_i field others same
        rw [same, List.length_cons] at ih
        rw [List.length_cons]
        omega

theorem joinedLength (ls : List Text) : (ls.map List.length).sum ≤ (joinLines ls).length := by
  induction ls with
  | nil => exact Nat.le_refl _
  | cons l ls ih =>
    by_cases more : ls = []
    · subst more; simp [joinLines]
    · rw [Text.joinLinesCons l more, List.map_cons, List.sum_cons, List.length_append, List.length_cons]
      omega

theorem filteredLength (keeps : Text → Bool) (ls : List Text) :
    ((ls.filter keeps).map List.length).sum ≤ (ls.map List.length).sum := by
  induction ls with
  | nil => exact Nat.le_refl _
  | cons l ls ih =>
    rw [List.filter_cons]
    split
    · simp only [List.map_cons, List.sum_cons]; omega
    · rw [List.map_cons, List.sum_cons]; omega

theorem contentTotal (t : Text) : ((contentLines t).map List.length).sum ≤ t.length := by
  have joined := joinedLength t.lines
  rw [Text.joinLinesLines] at joined
  exact Nat.le_trans (filteredLength _ _) joined

theorem foundLength (m : Pattern.Matcher) (t : Text) : (m.findAll t).length ≤ t.length + 1 := by
  have one : ∀ (way : Option Pattern.Way) offset (u : Text),
      (way.map (Pattern.Found.ofWay offset u)).toList.length ≤ 1 := fun way offset u => by
    cases way <;> simp
  have general : ∀ (rest : Text) last met offset before,
      (m.findFrom last met offset before rest).length ≤ rest.length + 1 := by
    intro rest
    induction rest with
    | nil =>
      intro last met offset before
      rw [Pattern.Matcher.findFromNil]
      exact one _ _ _
    | cons c rest ih =>
      intro last met offset before
      have here := one (m.attempt last met offset before (c :: rest)).1 offset (c :: rest)
      have later := ih (m.attempt last met offset before (c :: rest)).2.1
        (m.attempt last met offset before (c :: rest)).2.2 (offset + c.utf8Size) (some c)
      rw [Pattern.Matcher.findFromCons, List.length_append, List.length_cons]
      omega
  exact general t _ _ _ _

section Held
variable {t : Text} (held : t.size ≤ Text.longest)
include held

theorem lengthWord {n : Nat} (bound : n ≤ t.length + 1) : n < UInt64.size := by
  have short := Text.lengthSize t
  exact wordOfSize held (by omega)

theorem contentWord : (contentLines t).length < UInt64.size := by
  have kept : (contentLines t).length ≤ t.lines.length := List.length_filter_le _ _
  exact lengthWord held (Nat.le_trans kept (fieldsLength _ t))

theorem contentLength {l : Text} (member : l ∈ contentLines t) : l.length < UInt64.size := by
  have part : l.length ≤ (contentLines t).flatten.length :=
    (List.sublist_flatten_of_mem member).length_le
  have total := contentTotal t
  rw [List.length_flatten] at part
  exact lengthWord held (by omega)

theorem scanSafe : checkedScan t (contentLines t) = .ok (MarkerCounts.scan t (contentLines t)) := by
  have found : ∀ m : Pattern.Matcher, length (m.findAll t) = .ok (m.findAll t).length := fun m =>
    lengthOk (lengthWord held (foundLength m t))
  simp only [checkedScan, found, countOk (contentWord held), okBind]
  rfl

/- Where there are lines, their mean length is defined. -/
theorem shapeSafe (c : Config.Detector) (some : contentLines t ≠ []) :
    checkedShape c t (contentLines t) = .ok (shape c t (contentLines t)) := by
  have census : checkedCensus ⟨0, 0, 0, 0⟩ t = .ok (Census.of t) := by
    have room : 0 + t.length < UInt64.size := lengthWord held (by omega)
    have counted := censusSafe (n := ⟨0, 0, 0, 0⟩)
      ⟨room, Nat.le_refl 0, Nat.le_refl 0, Nat.le_refl 0⟩
    simpa only [Nat.zero_add] using counted
  have lengths : (contentLines t).mapM length = .ok ((contentLines t).map List.length) :=
    mapOk fun l hl => lengthOk (contentLength held hl)
  have chars : total 0 ((contentLines t).map List.length) = .ok (contentLines t).flatten.length := by
    have bound := contentTotal t
    have fits : 0 + ((contentLines t).map List.length).sum < UInt64.size :=
      lengthWord held (by omega)
    rw [totalOk fits, Nat.zero_add, List.length_flatten]
  have lines : (contentLines t).length ≠ 0 := fun none => some (List.length_eq_zero_iff.1 none)
  have digits := shareSafe .digit t
  have special := shareSafe .special t
  have upper := shareSafe .upper t
  simp only [checkedShape, scanSafe held, classifySafe, census, lengths, chars, ratioOk lines, okBind, Census.of,
    digits, special, upper]
  rfl

theorem distributionSafe (c : Config.Detector) :
    checkedDistribution c t (contentLines t) = .ok (distribution c t (contentLines t)) := by
  have words : t.words.length < UInt64.size := by
    have kept : t.words.length ≤ (Text.fields Unicode.isBlank t).length := List.length_filter_le _ _
    exact lengthWord held (Nat.le_trans kept (fieldsLength _ t))
  have short : ∀ l ∈ contentLines t, l.length < UInt64.size := fun l hl => contentLength held hl
  have repeatability : Frequency.checkedRepeatability c.repeatPrefixChars.toNat (contentLines t) =
      .ok (Frequency.repeatability c.repeatPrefixChars.toNat (contentLines t)) :=
    Frequency.repeatabilitySafe short (contentWord held)
  simp only [checkedDistribution, Frequency.entropySafe words, repeatability, okBind]
  rfl

theorem detectSafe (c : Config.Detector) : checkedDetect c t = .ok (detect c t) := by
  have signed : checkedSignature c t = .ok (signature c t) := by
    unfold checkedSignature signature
    by_cases none : contentLines t = []
    · rw [none]; rfl
    · have some : ¬ (contentLines t).isEmpty = true := by rwa [List.isEmpty_iff]
      simp only [if_neg some, shapeSafe held c none, distributionSafe held c, okBind]
  rw [checkedDetect, signed, okBind]
  rfl

end Held

end Detector

end Intake
