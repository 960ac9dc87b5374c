import Intake.Json.Value

/-! JSON documents: what a text says, member by member, in the order written and with names
repeated where they are repeated. A literal that no value answers to, such as a number beyond
the float range or half a surrogate pair, is unreadable; it does no harm where it is passed
over. Every canonical value is the value of some document. -/
namespace Intake.Json

/- A member's name; a plain one is written without escapes. -/
structure Label where
  name : String
  plain : Bool
  deriving DecidableEq, Repr

inductive Document where
  | null
  | bool (b : Bool)
  | int (n : Int)
  | float (x : Float)
  | string (s : String)
  | array (items : List Document)
  | object (members : List (Label × Document))
  | unreadable
  deriving Repr, Inhabited

/- Of members with one name the last counts. -/
def keepLater (name : String) (v : Value) (later : List (String × Value)) : List (String × Value) :=
  if (Table.find name later).isSome then later else Table.place name v later

namespace Document

mutual
def value? : Document → Option Value
  | null => some .null
  | bool b => some (.bool b)
  | int n => some (.int n)
  | float x => if x.isFinite then some (.float x) else none
  | string s => some (.string s)
  | array items => (values? items).map .array
  | object members => (members? members).map .object
  | unreadable => none

def values? : List Document → Option (List Value)
  | [] => some []
  | d :: rest => do
    let v ← value? d
    let vs ← values? rest
    some (v :: vs)

def members? : List (Label × Document) → Option (List (String × Value))
  | [] => some []
  | (label, d) :: rest => do
    let v ← value? d
    let later ← members? rest
    some (keepLater label.name v later)
end

/- How many brackets enclose the innermost part, parts that do not count in the end included. -/
mutual
def depth : Document → Nat
  | array items => depths items + 1
  | object members => memberDepths members + 1
  | _ => 0

def depths : List Document → Nat
  | [] => 0
  | d :: rest => max (depth d) (depths rest)

def memberDepths : List (Label × Document) → Nat
  | [] => 0
  | (_, d) :: rest => max (depth d) (memberDepths rest)
end

theorem ascendingKeepLater {name v later}
    (h : later.Pairwise (fun a b : String × Value => compare a.1 b.1 = .lt)) :
    (keepLater name v later).Pairwise (fun a b => compare a.1 b.1 = .lt) := by
  unfold keepLater; split
  · exact h
  · exact Table.placeAscending name v h

theorem memberKeepLater {name v later} {p : String × Value} (h : p ∈ keepLater name v later) :
    p = (name, v) ∨ p ∈ later := by
  unfold keepLater at h; split at h
  · exact .inr h
  · exact Table.memberPlace h

mutual
theorem valueCanonical {d : Document} {v : Value} (h : d.value? = some v) : v.Canonical := by
  cases d with
  | null => cases h; exact .null
  | bool b => cases h; exact .bool
  | int n => cases h; exact .int
  | float x =>
    simp only [value?] at h
    split at h
    · cases h; exact .float (by assumption)
    · cases h
  | string s => cases h; exact .string
  | array items =>
    simp only [value?, Option.map_eq_some_iff] at h
    obtain ⟨vs, hv, rfl⟩ := h
    exact .array (valuesCanonical hv)
  | object members =>
    simp only [value?, Option.map_eq_some_iff] at h
    obtain ⟨ms, hm, rfl⟩ := h
    exact .object (membersCanonical hm).1 (membersCanonical hm).2
  | unreadable => cases h

theorem valuesCanonical {ds : List Document} {vs : List Value} (h : values? ds = some vs) :
    ∀ v ∈ vs, v.Canonical := by
  cases ds with
  | nil => cases h; simp
  | cons d ds =>
    simp only [values?, bind, Option.bind_eq_some_iff] at h
    obtain ⟨v, hv, rest, hr, last⟩ := h
    cases last
    intro u hu
    rcases List.mem_cons.1 hu with rfl | hu
    · exact valueCanonical hv
    · exact valuesCanonical hr u hu

theorem membersCanonical {ds : List (Label × Document)} {ms : List (String × Value)}
    (h : members? ds = some ms) :
    ms.Pairwise (fun a b => compare a.1 b.1 = .lt) ∧ ∀ p ∈ ms, p.2.Canonical := by
  match ds with
  | [] => cases h; simp
  | (label, d) :: ds =>
    simp only [members?, bind, Option.bind_eq_some_iff] at h
    obtain ⟨v, hv, rest, hr, last⟩ := h
    cases last
    have tail := membersCanonical hr
    refine ⟨ascendingKeepLater tail.1, fun p hp => ?_⟩
    rcases memberKeepLater hp with rfl | hp
    · exact valueCanonical hv
    · exact tail.2 p hp
end

end Document

namespace Value

mutual
def document : Value → Document
  | null => .null
  | bool b => .bool b
  | int n => .int n
  | float x => .float x
  | string s => .string s
  | array items => .array (documents items)
  | object members => .object (labelled members)

def documents : List Value → List Document
  | [] => []
  | v :: rest => document v :: documents rest

def labelled : List (String × Value) → List (Label × Document)
  | [] => []
  | (name, v) :: rest => (⟨name, true⟩, document v) :: labelled rest
end

theorem keepLaterFirst {name v later}
    (h : ((name, v) :: later).Pairwise (fun a b : String × Value => compare a.1 b.1 = .lt)) :
    keepLater name v later = (name, v) :: later := by
  have tail := (List.pairwise_cons.1 h).1
  have absent : Table.find name later = none := by
    cases found : Table.find name later with
    | none => rfl
    | some u => simpa using tail _ (Table.findSome found)
  simp only [keepLater, absent, Option.isSome_none, Bool.false_eq_true, if_false]
  cases later with
  | nil => rfl
  | cons p later => have := tail p List.mem_cons_self; simp [Table.place, this]

mutual
theorem valueDocument {v : Value} (h : v.Canonical) : v.document.value? = some v := by
  cases v with
  | null => rfl
  | bool b => rfl
  | int n => rfl
  | float x => cases h with | float finite => simp [document, Document.value?, finite]
  | string s => rfl
  | array items =>
    cases h with | array each => simp [document, Document.value?, valuesDocuments each]
  | object members =>
    cases h with
    | object ascending each =>
      simp [document, Document.value?, membersLabelled ascending each]

theorem valuesDocuments {vs : List Value} (h : ∀ v ∈ vs, v.Canonical) :
    Document.values? (documents vs) = some vs := by
  cases vs with
  | nil => rfl
  | cons v vs =>
    simp [documents, Document.values?, valueDocument (h v List.mem_cons_self),
      valuesDocuments (fun u hu => h u (List.mem_cons_of_mem _ hu))]

theorem membersLabelled {ms : List (String × Value)}
    (ascending : ms.Pairwise (fun a b => compare a.1 b.1 = .lt)) (h : ∀ p ∈ ms, p.2.Canonical) :
    Document.members? (labelled ms) = some ms := by
  match ms with
  | [] => rfl
  | (name, v) :: ms =>
    have here : v.Canonical := h (name, v) List.mem_cons_self
    simp [labelled, Document.members?, valueDocument here,
      membersLabelled (List.pairwise_cons.1 ascending).2
        (fun p hp => h p (List.mem_cons_of_mem _ hp)),
      keepLaterFirst ascending]
end

end Value

end Intake.Json
