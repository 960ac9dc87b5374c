import Intake.Json.Record

/-! Free-form metadata: a table from names to canonical JSON values. What is kept in one is
written out and read back unchanged. -/
namespace Intake
open Json (Value Document)

structure Metadata where
  table : Table String Value
  canonical : ∀ p ∈ table.entries, p.2.Canonical

namespace Metadata

def empty : Metadata := ⟨.empty, by simp [Table.empty]⟩

instance : Inhabited Metadata := ⟨empty⟩

def get? (m : Metadata) (key : String) : Option Value := m.table.get? key

def contains (m : Metadata) (key : String) : Bool := m.table.contains key

def keys (m : Metadata) : List String := m.table.keys

def isEmpty (m : Metadata) : Bool := m.table.entries.isEmpty

def set (m : Metadata) (key : String) (value : Value)
    (canonical : value.Canonical := by constructor) : Metadata :=
  ⟨m.table.set key value, fun p hp => by
    rcases Table.memberSet hp with rfl | hp
    · exact canonical
    · exact m.canonical p hp⟩

def setString (m : Metadata) (key : String) (text : String) : Metadata := m.set key (.string text)

def setNat (m : Metadata) (key : String) (n : Nat) : Metadata := m.set key (.ofNat n)

def toValue (m : Metadata) : Value := .object m.table.entries

theorem canonicalToValue (m : Metadata) : m.toValue.Canonical :=
  .object m.table.ascending m.canonical

@[ext] theorem sameTable {a b : Metadata} (h : a.table = b.table) : a = b := by
  cases a; cases b; cases h; rfl

@[simp] theorem getSet (m : Metadata) (key : String) (value : Value) (canonical : value.Canonical)
    (k : String) :
    (m.set key value canonical).get? k = if compare k key = .eq then some value else m.get? k :=
  Table.getSet m.table key value k

def ofValue? (v : Value) (canonical : v.Canonical) : Option Metadata :=
  match v, canonical with
  | .object members, h => some ⟨⟨members, by cases h; assumption⟩, by cases h; assumption⟩
  | _, _ => none

def ofDocument? (d : Document) : Option Metadata :=
  match h : d.value? with
  | some v => ofValue? v (Document.valueCanonical h)
  | none => none

theorem ofDocumentToValue (m : Metadata) : ofDocument? m.toValue.document = some m := by
  have back := Value.valueDocument m.canonicalToValue
  unfold ofDocument?
  split
  · rename_i v h
    have : v = m.toValue := Option.some.inj (h.symm.trans back)
    subst this
    rfl
  · rename_i h
    rw [back] at h; cases h

end Metadata

end Intake
