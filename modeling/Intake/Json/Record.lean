import Intake.Json.Reader

/-! Records in documents. A record with known names is written as an object, where unknown
names are passed over and a known one may come only once, or as the list of its fields in
order, from which the last ones may be missing. -/
namespace Intake.Json

namespace Document

def named (name : String) (members : List (Label × Document)) : List Document :=
  (members.filter (fun m => m.1.name == name)).map (·.2)

def field? (members : List (Label × Document)) (name : String) : Option (Option Document) :=
  match named name members with
  | [] => some none
  | [d] => some (some d)
  | _ => none

/- One entry for each name: what is written for it, if anything is. -/
def record? (names : List String) : Document → Option (List (Option Document))
  | .object members => names.mapM (field? members)
  | .array items =>
    if items.length ≤ names.length then
      some (items.map some ++ List.replicate (names.length - items.length) none)
    else none
  | _ => none

/- The depth of one field, which the record encloses. -/
def fieldDepth (names : List String) (name : String) (depth : Document → Nat) (d : Document) : Nat :=
  match record? names d with
  | some fields => ((names.zip fields).lookup name).join.elim 0 depth + 1
  | none => 0

def listDepth (depth : Document → Nat) : Document → Nat
  | .array items => (items.map depth).foldl max 0 + 1
  | _ => 0

def orElse {α : Type} (fallback : α) (read : Document → Option α) : Option Document → Option α
  | none => some fallback
  | some d => read d

def bool? : Document → Option Bool
  | .bool b => some b
  | _ => none

def string? : Document → Option String
  | .string s => some s
  | _ => none

def word? : Document → Option UInt64
  | .int n => if 0 ≤ n ∧ n < UInt64.size then some (UInt64.ofNat n.toNat) else none
  | _ => none

/- Counts are written as 64-bit words. -/
def count? : Document → Option Nat
  | .int n => if 0 ≤ n ∧ n < UInt64.size then some n.toNat else none
  | _ => none

def float? : Document → Option Float
  | .float x => some x
  | .int n => some (if n < 0 then -Ratio.toFloat n.natAbs else Ratio.toFloat n.natAbs)
  | _ => none

def list? {α : Type} (read : Document → Option α) : Document → Option (List α)
  | .array items => items.mapM read
  | _ => none

/- A member of a closed set by its name, written as a string or as the only member,
holding null, of an object. -/
def choice? {α : Type} (all : List α) (name : α → String) : Document → Option α
  | .string s => all.find? (fun a => name a == s)
  | .object [(label, .null)] => all.find? (fun a => name a == label.name)
  | _ => none

end Document

/- Text that is read, not handed over as data, nests no deeper than this. -/
def nestingLimit : Nat := 127

end Intake.Json
