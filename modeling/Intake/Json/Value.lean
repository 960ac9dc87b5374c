import Intake.Table

/-! JSON values as data. An object is a map: in a canonical value the members of every object
stand in strictly ascending key order, and every float is finite. -/
namespace Intake.Json

inductive Value where
  | null
  | bool (b : Bool)
  | int (n : Int)
  | float (x : Float)
  | string (s : String)
  | array (items : List Value)
  | object (members : List (String × Value))
  deriving Repr, Inhabited

namespace Value

def ofNat (n : Nat) : Value := .int n

/- JSON has no infinities and no NaN. -/
def ofFloat (x : Float) : Value := if x.isFinite then .float x else .null

def ofNats (ns : List Nat) : Value := .array (ns.map ofNat)

def ofStrings (ss : List String) : Value := .array (ss.map .string)

def record (members : List (String × Value)) : Value := .object (Table.ofList members).entries

inductive Canonical : Value → Prop where
  | null : Canonical .null
  | bool {b} : Canonical (.bool b)
  | int {n} : Canonical (.int n)
  | float {x} (finite : x.isFinite = true) : Canonical (.float x)
  | string {s} : Canonical (.string s)
  | array {items} (each : ∀ v ∈ items, Canonical v) : Canonical (.array items)
  | object {members} (ascending : members.Pairwise (fun a b => compare a.1 b.1 = .lt))
      (each : ∀ p ∈ members, Canonical p.2) : Canonical (.object members)

theorem canonicalOfNat (n : Nat) : Canonical (ofNat n) := .int

theorem canonicalOfFloat (x : Float) : Canonical (ofFloat x) := by
  unfold ofFloat; split
  · exact .float (by assumption)
  · exact .null

theorem canonicalOfNats (ns : List Nat) : Canonical (ofNats ns) :=
  .array (fun v hv => by obtain ⟨n, _, rfl⟩ := List.mem_map.1 hv; exact .int)

theorem canonicalOfStrings (ss : List String) : Canonical (ofStrings ss) :=
  .array (fun v hv => by obtain ⟨s, _, rfl⟩ := List.mem_map.1 hv; exact .string)

theorem canonicalRecord {members : List (String × Value)}
    (each : ∀ p ∈ members, Canonical p.2) : Canonical (record members) :=
  .object (Table.ofList members).ascending (fun p hp => each p (Table.memberOfList hp))

end Value

end Intake.Json
