import Mathlib.Data.List.Forall2
import Intake.Json.Record
import Intake.Proofs.Table

/-! Records written and read. What a record was written with is found under its names, whatever
the order in which an object keeps them; and a value of each kind is read as what was written. -/
namespace Intake.Json

namespace Document

theorem fieldOnce {before after : List (Label × Document)} {label : Label} {d : Document}
    (others : ∀ m ∈ before ++ after, m.1.name ≠ label.name) :
    field? (before ++ (label, d) :: after) label.name = some (some d) := by
  have apart : ∀ ms ⊆ before ++ after, ms.filter (fun m => m.1.name == label.name) = [] := by
    intro ms inside
    refine List.filter_eq_nil_iff.2 fun m member => ?_
    simpa using others m (inside member)
  have only : named label.name (before ++ (label, d) :: after) = [d] := by
    rw [named, List.filter_append, apart before (List.subset_append_left _ _),
      List.filter_cons_of_pos (by simp), apart after (List.subset_append_right _ _)]
    rfl
  rw [field?, only]

theorem fieldAbsent {members : List (Label × Document)} {name : String}
    (absent : ∀ m ∈ members, m.1.name ≠ name) : field? members name = some none := by
  have none : members.filter (fun m => m.1.name == name) = [] :=
    List.filter_eq_nil_iff.2 fun m member => by simpa using absent m member
  rw [field?, named, none]
  rfl

theorem allRead {α β : Type} {read : α → Option β} {xs : List α} {ys : List β}
    (each : List.Forall₂ (fun x y => read x = some y) xs ys) : xs.mapM read = some ys := by
  induction each with
  | nil => rfl
  | cons here _ ih =>
    rw [List.mapM_cons, here, ih]
    rfl

end Document

namespace Value
open Document (field? record? count? word? float? string? list? choice?)

theorem labelledMap (ms : List (String × Value)) :
    labelled ms = ms.map (fun m => (⟨m.1, true⟩, m.2.document)) := by
  induction ms with
  | nil => rfl
  | cons m ms ih => rw [labelled, ih, List.map_cons]

theorem writtenOnce {ms : List (String × Value)} {name : String} {v : Value}
    (ascending : ms.Pairwise (fun a b => compare a.1 b.1 = .lt)) (member : (name, v) ∈ ms) :
    ∃ before after, labelled ms = before ++ (⟨name, true⟩, v.document) :: after ∧
      ∀ m ∈ before ++ after, m.1.name ≠ name := by
  obtain ⟨before, after, rfl⟩ := List.append_of_mem member
  obtain ⟨-, behind, across⟩ := List.pairwise_append.1 ascending
  rw [labelledMap, List.map_append, List.map_cons]
  refine ⟨_, _, rfl, fun m inside same => ?_⟩
  rw [← List.map_append] at inside
  obtain ⟨p, among, rfl⟩ := List.mem_map.1 inside
  have equal : p.1 = name := same
  rcases List.mem_append.1 among with earlier | later
  · have less := across p earlier (name, v) List.mem_cons_self
    simp [equal] at less
  · have less := (List.pairwise_cons.1 behind).1 p later
    simp [equal] at less

theorem fieldWritten {ms : List (String × Value)} {name : String} {v : Value}
    (ascending : ms.Pairwise (fun a b => compare a.1 b.1 = .lt)) (member : (name, v) ∈ ms) :
    field? (labelled ms) name = some (some v.document) := by
  obtain ⟨before, after, whole, others⟩ := writtenOnce ascending member
  rw [whole]
  exact Document.fieldOnce others

theorem recordRead {names : List String} {members : List (String × Value)}
    (named : members.map Prod.fst = names) (distinct : names.Nodup) :
    record? names (record members).document = some (members.map (fun m => some m.2.document)) := by
  subst named
  refine Document.allRead ?_
  rw [List.forall₂_map_left_iff, List.forall₂_map_right_iff, List.forall₂_same]
  exact fun m member => fieldWritten (Table.ofList members).ascending
    ((Table.memberDistinct distinct).2 member)

theorem countRead {n : Nat} (word : n < UInt64.size) : count? (ofNat n).document = some n := by
  have range : (0 : Int) ≤ n ∧ (n : Int) < UInt64.size := by omega
  rw [ofNat, document, count?, if_pos range]
  rfl

theorem wordRead (w : UInt64) : word? (ofNat w.toNat).document = some w := by
  have word : w.toNat < UInt64.size := w.toNat_lt
  have range : (0 : Int) ≤ w.toNat ∧ (w.toNat : Int) < UInt64.size := by omega
  rw [ofNat, document, word?, if_pos range, Int.toNat_natCast, UInt64.ofNat_toNat]

theorem floatRead {x : Float} (finite : x.isFinite = true) :
    float? (ofFloat x).document = some x := by
  rw [ofFloat, if_pos finite]
  rfl

theorem quoteRead (s : String) : string? (string s).document = some s := rfl

theorem documentsMap (vs : List Value) : documents vs = vs.map document := by
  induction vs with
  | nil => rfl
  | cons v vs ih => rw [documents, ih, List.map_cons]

theorem listRead {α : Type} {read : Document → Option α} {write : α → Value} {as : List α}
    (each : ∀ a ∈ as, read (write a).document = some a) :
    list? read (array (as.map write)).document = some as := by
  rw [document, documentsMap, List.map_map, list?]
  refine Document.allRead ?_
  rw [List.forall₂_map_left_iff, List.forall₂_same]
  exact each

/- A member of a closed set is known by its name. -/
theorem choiceRead {α : Type} {all : List α} {name : α → String}
    (injective : ∀ {a b : α}, name a = name b → a = b) {a : α} (member : a ∈ all) :
    choice? all name (string (name a)).document = some a := by
  rw [document, choice?]
  cases found : all.find? (fun b => name b == name a) with
  | none =>
    have none := List.find?_eq_none.1 found a member
    simp at none
  | some b =>
    have same := List.find?_some found
    rw [injective (eq_of_beq same)]

end Value

end Intake.Json
