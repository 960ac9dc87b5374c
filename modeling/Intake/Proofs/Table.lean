import Mathlib.Data.List.Nodup
import Mathlib.Data.Set.List
import Intake.Table

/-! Tables filled from a list: a look-up finds the last entry of its key. -/
namespace Intake.Table
variable {κ α : Type} [Ord κ] [Std.TransOrd κ] [Std.LawfulEqOrd κ]

def last? (pairs : List (κ × α)) (k : κ) : Option α :=
  (pairs.reverse.find? (fun p => compare k p.1 == .eq)).map (·.2)

theorem getFold (pairs : List (κ × α)) (t : Table κ α) (k : κ) :
    (pairs.foldl (fun t p => t.set p.1 p.2) t).get? k = (last? pairs k).or (t.get? k) := by
  induction pairs generalizing t with
  | nil => rfl
  | cons p pairs ih =>
    rw [List.foldl_cons, ih, getSet]
    unfold last?
    rw [List.reverse_cons, List.find?_append]
    cases pairs.reverse.find? (fun p => compare k p.1 == .eq) with
    | some q => rfl
    | none => by_cases same : compare k p.1 = .eq <;> simp [same]

theorem getOfList (pairs : List (κ × α)) (k : κ) : (ofList pairs).get? k = last? pairs k := by
  rw [ofList, getFold, getEmpty, Option.or_none]

omit [Std.TransOrd κ] [Std.LawfulEqOrd κ] in
theorem lastAppend (xs ys : List (κ × α)) (k : κ) :
    last? (xs ++ ys) k = (last? ys k).or (last? xs k) := by
  rw [last?, last?, last?, List.reverse_append, List.find?_append]
  cases ys.reverse.find? (fun p => compare k p.1 == .eq) <;> rfl

/- Where a key has one value only, the look-up gives it. -/
theorem getOnly {pairs : List (κ × α)} {k : κ} {v : α} (member : (k, v) ∈ pairs)
    (only : ∀ w, (k, w) ∈ pairs → w = v) : (ofList pairs).get? k = some v := by
  rw [getOfList, last?]
  cases found : pairs.reverse.find? (fun p => compare k p.1 == .eq) with
  | none =>
    have none := List.find?_eq_none.1 found (k, v) (List.mem_reverse.2 member)
    simp at none
  | some p =>
    obtain ⟨key, w⟩ := p
    have same : k = key := by simpa using List.find?_some found
    subst same
    have value := only w (List.mem_reverse.1 (List.mem_of_find?_eq_some found))
    rw [Option.map_some, value]

theorem getAbsent {pairs : List (κ × α)} {k : κ} (absent : ∀ v, (k, v) ∉ pairs) :
    (ofList pairs).get? k = none := by
  rw [getOfList, last?, Option.map_eq_none_iff, List.find?_eq_none]
  rintro ⟨key, v⟩ member same
  have here : k = key := by simpa using same
  subst here
  exact absent v (List.mem_reverse.1 member)

omit [Std.TransOrd κ] in
theorem memberKeys {t : Table κ α} {k : κ} : k ∈ t.keys ↔ ∃ v, t.get? k = some v := by
  rw [keys, List.mem_map]
  constructor
  · rintro ⟨⟨key, v⟩, member, rfl⟩
    exact ⟨v, getSome.2 member⟩
  · rintro ⟨v, found⟩
    exact ⟨(k, v), getSome.1 found, rfl⟩

omit [Std.TransOrd κ] [Std.LawfulEqOrd κ] in
theorem keysAscending (t : Table κ α) : t.keys.Pairwise (fun a b => compare a b = .lt) :=
  List.pairwise_map.2 t.ascending

/- Of a list of keys the table keeps each one. -/
theorem memberListed {ks : List κ} {k : κ} : k ∈ (ofList (ks.map (·, ()))).keys ↔ k ∈ ks := by
  rw [memberKeys]
  constructor
  · rintro ⟨v, found⟩
    obtain ⟨key, member, same⟩ := List.mem_map.1 (memberOfList (getSome.1 found))
    cases same
    exact member
  · intro member
    exact ⟨(), getOnly (List.mem_map.2 ⟨k, member, rfl⟩) fun _ _ => rfl⟩

/- Where no key comes twice, nothing is lost. -/
theorem memberDistinct {pairs : List (κ × α)} (distinct : (pairs.map Prod.fst).Nodup) {p : κ × α} :
    p ∈ (ofList pairs).entries ↔ p ∈ pairs := by
  refine ⟨memberOfList, fun member => getSome.1 (getOnly member fun w other => ?_)⟩
  have same := List.inj_on_of_nodup_map distinct other member rfl
  exact congrArg Prod.snd same

omit [Std.TransOrd κ] in
theorem keysDistinct (t : Table κ α) : (t.entries.map Prod.fst).Nodup := by
  refine List.pairwise_map.2 (t.ascending.imp fun {p q} less same => ?_)
  rw [same] at less
  simp at less

theorem sameMembers {a b : Table κ α} (same : ∀ p, p ∈ a.entries ↔ p ∈ b.entries) : a = b := by
  refine sameLookups fun k => Option.ext fun v => ?_
  rw [getSome, getSome, same]

/- Entries written under other names stand in another order, and are the same table still. -/
theorem renamed {μ β : Type} [Ord μ] [Std.TransOrd μ] [Std.LawfulEqOrd μ] (t : Table κ α)
    {name : κ → μ} {entry : κ × α → μ × β} (keyed : ∀ p, (entry p).1 = name p.1)
    (nameInjective : Function.Injective name) (injective : Function.Injective entry) :
    ∃ pairs, (ofList (t.entries.map entry)).entries = pairs.map entry ∧ ofList pairs = t := by
  have names : ∀ ps : List (κ × α), (ps.map entry).map Prod.fst = (ps.map Prod.fst).map name := by
    intro ps
    rw [List.map_map, List.map_map]
    exact List.map_congr_left fun p _ => keyed p
  have apart : ((t.entries.map entry).map Prod.fst).Nodup := by
    rw [names]
    exact t.keysDistinct.map nameInjective
  obtain ⟨pairs, listed⟩ : (ofList (t.entries.map entry)).entries ∈ Set.range (List.map entry) := by
    rw [Set.range_list_map]
    intro m member
    obtain ⟨p, -, same⟩ := List.mem_map.1 ((memberDistinct apart).1 member)
    exact ⟨p, same⟩
  have distinct : (pairs.map Prod.fst).Nodup := by
    refine List.Nodup.of_map name ?_
    rw [← names, listed]
    exact keysDistinct _
  refine ⟨pairs, listed.symm, sameMembers fun p => ?_⟩
  calc p ∈ (ofList pairs).entries
    _ ↔ p ∈ pairs := memberDistinct distinct
    _ ↔ entry p ∈ pairs.map entry := (List.mem_map_of_injective injective).symm
    _ ↔ entry p ∈ t.entries.map entry := by rw [listed]; exact memberDistinct apart
    _ ↔ p ∈ t.entries := List.mem_map_of_injective injective

/- A list that is in order already is a table as it stands. -/
theorem ofListAscending {pairs : List (κ × α)}
    (ascending : pairs.Pairwise (fun a b => compare a.1 b.1 = .lt)) :
    ofList pairs = ⟨pairs, ascending⟩ := by
  refine sameLookups fun k => ?_
  show (ofList pairs).get? k = find k pairs
  cases found : find k pairs with
  | none =>
    refine getAbsent fun v member => ?_
    rw [findMember ascending member] at found
    cases found
  | some v =>
    refine getOnly (findSome found) fun w member => ?_
    rw [findMember ascending member] at found
    exact Option.some.inj found

end Intake.Table
