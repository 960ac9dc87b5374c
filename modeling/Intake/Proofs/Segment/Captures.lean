import Intake.Proofs.Segment.Extraction
import Intake.Proofs.Table
import Intake.Segment.Segmenter
import Mathlib.Data.List.Forall2

/-! Captures and what is kept of them. A capture has a site: its rule, its match and its group. The
captures are written down in the order of their sites, and the last one for a key decides its value;
so rules that are added overwrite what was extracted before them. Chunks are told what was extracted
from them and are left alone otherwise. -/
namespace Intake

theorem Metadata.memberKeys {m : Metadata} {k : String} : k ∈ m.keys ↔ ∃ v, m.get? k = some v :=
  Table.memberKeys

theorem Metadata.someKey {m : Metadata} {k : String} (member : k ∈ m.keys) : m.isEmpty = false := by
  obtain ⟨p, hp, -⟩ := List.mem_map.1 member
  exact List.isEmpty_eq_false_iff.2 (List.ne_nil_of_mem hp)

namespace Feature
open Pattern (Found)

/- Where a capture comes from: the position of its rule, that of the match among those of the rule,
and the group. -/
structure Site where
  rule : Nat
  hit : Nat
  group : UInt64
  deriving DecidableEq, Repr

namespace Site

def Before (a b : Site) : Prop :=
  a.rule < b.rule ∨ a.rule = b.rule ∧ (a.hit < b.hit ∨ a.hit = b.hit ∧ a.group < b.group)

theorem notBoth {a b : Site} (one : a.Before b) (other : b.Before a) : False := by
  simp only [Before, UInt64.lt_iff_toNat_lt] at one other
  omega

end Site

/- At a site stands a rule, a match of it, and a group that took part in the match and has a key. -/
def CapturedAt (rules : List CompiledRule) (content : Text) (s : Site) (c : Capture) : Prop :=
  ∃ (r : CompiledRule) (m : Found), rules[s.rule]? = some r ∧
    (r.matcher.findAll content)[s.hit]? = some m ∧ r.mapping.get? s.group = some c.key ∧
    m.groupText? s.group.toNat = some c.text

/- The text that is captured for a key at the last site there is for it. -/
def LastFor (rules : List CompiledRule) (content : Text) (k : String) (text : Text) : Prop :=
  ∃ site, CapturedAt rules content site ⟨k, text⟩ ∧
    ∀ other earlier, CapturedAt rules content other ⟨k, earlier⟩ → other = site ∨ other.Before site

theorem capturedOnce {rules : List CompiledRule} {content : Text} {s : Site} {c d : Capture}
    (one : CapturedAt rules content s c) (other : CapturedAt rules content s d) : c = d := by
  obtain ⟨r, m, rule, hit, mapped, taken⟩ := one
  obtain ⟨r', m', rule', hit', mapped', taken'⟩ := other
  cases rule.symm.trans rule'
  cases hit.symm.trans hit'
  have key : c.key = d.key := Option.some.inj (mapped.symm.trans mapped')
  have text : c.text = d.text := Option.some.inj (taken.symm.trans taken')
  cases c
  cases d
  simp only at key text
  rw [key, text]

/- The captures with their sites. -/
def sitedAt (rule hit : Nat) (mapping : Table UInt64 String) (m : Found) : List (Site × Capture) :=
  mapping.entries.filterMap (fun (group, key) =>
    (m.groupText? group.toNat).map (fun text => (⟨rule, hit, group⟩, ⟨key, text⟩)))

def sitedOf (content : Text) (rule : Nat) (r : CompiledRule) : List (Site × Capture) :=
  (r.matcher.findAll content).zipIdx.flatMap (fun (m, hit) => sitedAt rule hit r.mapping m)

def sited (rules : List CompiledRule) (content : Text) : List (Site × Capture) :=
  rules.zipIdx.flatMap (fun (r, rule) => sitedOf content rule r)

section Sited
variable {rules : List CompiledRule} {content : Text}

/- Numbers that are not looked at make no difference. -/
theorem numberedFlat {α β : Type} (f : α → List β) (xs : List α) :
    xs.zipIdx.flatMap (fun p => f p.1) = xs.flatMap f := by
  rw [← List.flatMap_map, List.zipIdx_map_fst]

theorem numberedAscending {α : Type} (xs : List α) : xs.zipIdx.Pairwise (fun a b => a.2 < b.2) := by
  rw [← List.pairwise_map (f := Prod.snd), List.zipIdx_map_snd]
  exact List.pairwise_lt_range'

theorem sitedCaptures (rules : List CompiledRule) (content : Text) :
    (sited rules content).map Prod.snd = captures rules content := by
  have at_ : ∀ rule hit mapping m,
      (sitedAt rule hit mapping m).map Prod.snd = capturesAt mapping m := fun rule hit mapping m => by
    rw [sitedAt, capturesAt, List.map_filterMap]
    simp only [Option.map_map]
    rfl
  have of_ : ∀ rule r, (sitedOf content rule r).map Prod.snd = capturesOf content r := fun rule r => by
    simp only [sitedOf, List.map_flatMap, at_]
    exact numberedFlat _ _
  simp only [sited, List.map_flatMap, of_]
  exact numberedFlat _ _

theorem sitedMember {s : Site} {c : Capture} :
    (s, c) ∈ sited rules content ↔ CapturedAt rules content s c := by
  simp only [sited, sitedOf, sitedAt, List.mem_flatMap, List.mem_filterMap, Option.map_eq_some_iff,
    Prod.exists, List.mem_zipIdx_iff_getElem?]
  constructor
  · rintro ⟨r, rule, here, m, hit, found, group, key, mapped, text, taken, same⟩
    cases same
    exact ⟨r, m, here, found, Table.getSome.2 mapped, taken⟩
  · rintro ⟨r, m, here, found, mapped, taken⟩
    exact ⟨r, s.rule, here, m, s.hit, found, s.group, c.key, Table.getSome.1 mapped, c.text, taken, rfl⟩

/- Rules, matches and groups are gone through in ascending order, one within the other. -/
theorem sitedOrdered (rules : List CompiledRule) (content : Text) :
    (sited rules content).Pairwise (fun a b => a.1.Before b.1) := by
  have ruleOf : ∀ rule r, ∀ a ∈ sitedOf content rule r, a.1.rule = rule := by
    intro rule r a ha
    simp only [sitedOf, sitedAt, List.mem_flatMap, List.mem_filterMap, Option.map_eq_some_iff] at ha
    obtain ⟨_, -, _, -, _, -, rfl⟩ := ha
    rfl
  have hitOf : ∀ rule hit mapping m, ∀ a ∈ sitedAt rule hit mapping m,
      a.1.rule = rule ∧ a.1.hit = hit := by
    intro rule hit mapping m a ha
    simp only [sitedAt, List.mem_filterMap, Option.map_eq_some_iff] at ha
    obtain ⟨_, -, _, -, rfl⟩ := ha
    exact ⟨rfl, rfl⟩
  refine List.pairwise_flatMap.2 ⟨fun p _ => List.pairwise_flatMap.2 ⟨fun q _ => ?_, ?_⟩, ?_⟩
  · refine List.pairwise_filterMap.2 (p.1.mapping.ascending.imp fun {g h} less a ha b hb => ?_)
    obtain ⟨_, -, rfl⟩ := Option.map_eq_some_iff.1 ha
    obtain ⟨_, -, rfl⟩ := Option.map_eq_some_iff.1 hb
    exact .inr ⟨rfl, .inr ⟨rfl, Std.compare_eq_lt.1 less⟩⟩
  · refine (numberedAscending _).imp fun {m n} less a ha b hb => .inr ?_
    obtain ⟨ruleA, hitA⟩ := hitOf _ _ _ _ a ha
    obtain ⟨ruleB, hitB⟩ := hitOf _ _ _ _ b hb
    exact ⟨ruleA.trans ruleB.symm, .inl (by rw [hitA, hitB]; exact less)⟩
  · refine (numberedAscending _).imp fun {p q} less a ha b hb => .inl ?_
    rw [ruleOf _ _ a ha, ruleOf _ _ b hb]
    exact less

/- Among the captures for a key there is a last one, and it has the last site. -/
theorem lastCapture {k : String} (captured : ∃ a ∈ sited rules content, a.2.key = k) :
    ∃ site text, CapturedAt rules content site ⟨k, text⟩ ∧
      (∀ other earlier, CapturedAt rules content other ⟨k, earlier⟩ →
        other = site ∨ other.Before site) ∧
      (extract rules content).get? k = some (Numeric.value text) := by
  obtain ⟨a, ha, key⟩ := captured
  have some_ : ((sited rules content).reverse.find? (fun a => decide (a.2.key = k))).isSome :=
    List.find?_isSome.2 ⟨a, List.mem_reverse.2 ha, decide_eq_true key⟩
  obtain ⟨⟨site, c⟩, found⟩ := Option.isSome_iff_exists.1 some_
  obtain ⟨last, after, before, parts, others⟩ := List.find?_eq_some_iff_append.1 found
  obtain rfl : c.key = k := of_decide_eq_true last
  have whole : sited rules content = before.reverse ++ (site, c) :: after.reverse := by
    rw [← List.reverse_reverse (sited rules content), parts]
    simp
  have none : ∀ b ∈ after.reverse, b.2.key ≠ c.key := fun b hb => by
    simpa using others b (List.mem_reverse.1 hb)
  have here : CapturedAt rules content site c := sitedMember.1 (by rw [whole]; simp)
  refine ⟨site, c.text, here, fun other earlier captured => ?_, ?_⟩
  · have ordered := sitedOrdered rules content
    have member := sitedMember.2 captured
    rw [whole] at ordered member
    rcases List.mem_append.1 member with first | rest
    · exact .inr ((List.pairwise_append.1 ordered).2.2 _ first _ List.mem_cons_self)
    rcases List.mem_cons.1 rest with same | later
    · exact .inl (congrArg Prod.fst same)
    · exact absurd rfl (none _ later)
  · have listed : captures rules content =
        before.reverse.map Prod.snd ++ c :: after.reverse.map Prod.snd := by
      rw [← sitedCaptures, whole, List.map_append, List.map_cons]
    refine lastStored listed fun d hd => ?_
    obtain ⟨b, hb, rfl⟩ := List.mem_map.1 hd
    exact none b hb

theorem capturedSome {k : String} {v : Json.Value} (found : (extract rules content).get? k = some v) :
    ∃ a ∈ sited rules content, a.2.key = k := by
  by_contra none
  have absent : ∀ c ∈ captures rules content, c.key ≠ k := by
    intro c hc same
    rw [← sitedCaptures] at hc
    obtain ⟨a, ha, rfl⟩ := List.mem_map.1 hc
    exact none ⟨a, ha, same⟩
  rw [extract, recordKept absent] at found
  cases found

theorem keysCaptured {k : String} : k ∈ (extract rules content).keys ↔
    ∃ site text, CapturedAt rules content site ⟨k, text⟩ := by
  rw [Metadata.memberKeys]
  constructor
  · rintro ⟨v, found⟩
    obtain ⟨site, text, here, -⟩ := lastCapture (capturedSome found)
    exact ⟨site, text, here⟩
  · rintro ⟨site, text, here⟩
    obtain ⟨-, last, -, -, stored⟩ := lastCapture ⟨_, sitedMember.2 here, rfl⟩
    exact ⟨_, stored⟩

theorem valueLast {k : String} {v : Json.Value} : (extract rules content).get? k = some v ↔
    ∃ text, LastFor rules content k text ∧ v = Numeric.value text := by
  constructor
  · intro found
    obtain ⟨site, text, here, latest, stored⟩ := lastCapture (capturedSome found)
    exact ⟨text, ⟨site, here, latest⟩, Option.some.inj (found.symm.trans stored)⟩
  · rintro ⟨text, ⟨site, here, latest⟩, rfl⟩
    obtain ⟨last, text', there, latest', stored⟩ := lastCapture ⟨_, sitedMember.2 here, rfl⟩
    have same : site = last := by
      rcases latest' site text here with same | earlier
      · exact same
      rcases latest last text' there with same | later
      · exact same.symm
      · exact (Site.notBoth earlier later).elim
    subst same
    cases capturedOnce here there
    exact stored

end Sited

/- What a capture is written down as. -/
def stored (c : Capture) : String × Json.Value := (c.key, Numeric.value c.text)

theorem recordTable (cs : List Capture) (m : Metadata) :
    (cs.foldl record m).table = (cs.map stored).foldl (fun t p => t.set p.1 p.2) m.table := by
  induction cs generalizing m with
  | nil => rfl
  | cons c cs ih => exact ih (record m c)

theorem extractLast (rules : List CompiledRule) (content : Text) (k : String) :
    (extract rules content).get? k = Table.last? ((captures rules content).map stored) k := by
  rw [← Table.getOfList]
  exact congrArg (·.get? k) (recordTable (captures rules content) .empty)

/- What later rules extract overwrites what earlier ones do. -/
theorem extractAppend (rules more : List CompiledRule) (content : Text) (k : String) :
    (extract (rules ++ more) content).get? k =
      ((extract more content).get? k).or ((extract rules content).get? k) := by
  rw [extractLast, extractLast, extractLast, captures, List.flatMap_append, List.map_append,
    Table.lastAppend]
  rfl

/- A chunk that is as it was, but for what was extracted from it, if anything was. -/
structure Attached (rules : List CompiledRule) (c d : Chunk) : Prop where
  content : d.content = c.content
  offset : d.offset = c.offset
  length : d.length = c.length
  others : ∀ k, k ≠ "extracted_features" → d.metadata.get? k = c.metadata.get? k
  features : d.metadata.get? "extracted_features" =
    if (extract rules c.content).isEmpty then c.metadata.get? "extracted_features"
    else some (extract rules c.content).toValue

theorem attachAttached (rules : List CompiledRule) (c : Chunk) : Attached rules c (attach rules c) := by
  unfold attach
  simp only
  split
  · rename_i nothing
    exact ⟨rfl, rfl, rfl, fun _ _ => rfl, by rw [if_pos nothing]⟩
  · rename_i something
    refine ⟨rfl, rfl, rfl, fun k other => ?_, ?_⟩
    · have apart : compare k "extracted_features" ≠ .eq := fun same =>
        other (Std.LawfulEqOrd.eq_of_compare same)
      rw [Chunk.withMeta, Metadata.getSet, if_neg apart]
    · rw [if_neg something, Chunk.withMeta, Metadata.getSet, if_pos Std.ReflCmp.compare_self]

/- Without rules there is nothing to attach. -/
theorem applyMap (rules : List CompiledRule) (cs : List Chunk) :
    apply rules cs = cs.map (attach rules) := by
  unfold apply
  split
  · rename_i none
    rw [List.isEmpty_iff.1 none]
    exact (List.map_id cs).symm
  · rfl

theorem applyAttached (rules : List CompiledRule) (cs : List Chunk) :
    List.Forall₂ (Attached rules) cs (apply rules cs) := by
  rw [applyMap, List.forall₂_map_right_iff]
  exact List.forall₂_same.2 fun c _ => attachAttached rules c

theorem keysAttached {rules : List CompiledRule} {cs : List Chunk} {k : String} :
    k ∈ keys rules cs ↔ ∃ c ∈ cs, (extract rules c.content).isEmpty = false ∧
      k ∈ (extract rules c.content).keys := by
  rw [keys, Table.memberListed, List.mem_flatMap]
  constructor
  · rintro ⟨c, hc, member⟩
    exact ⟨c, hc, Metadata.someKey member, member⟩
  · rintro ⟨c, hc, -, member⟩
    exact ⟨c, hc, member⟩

theorem keysRising (rules : List CompiledRule) (cs : List Chunk) :
    (keys rules cs).Pairwise (· < ·) :=
  (Table.keysAscending _).imp compareOfLessAndEq_eq_lt.1

end Feature

end Intake
