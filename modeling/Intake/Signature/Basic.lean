import Intake.Metadata
import Intake.Signature.Mode

/-! The signature of a text in three layers: the shape of its lines, the distribution of its
words, and how far both can be trusted. -/
namespace Intake
open Json (Value Document)
open Json.Document (record? count? float? bool?)

structure Shape where
  mode : Mode
  lineCount : Nat
  averageLineLength : Float
  digitRatio : Float
  specialRatio : Float
  upperRatio : Float
  timeMarkers : Nat
  listMarkers : Nat
  tableMarkers : Nat
  identifiers : Nat
  deriving Repr

namespace Shape

def empty : Shape := ⟨.empty, 0, 0.0, 0.0, 0.0, 0.0, 0, 0, 0, 0⟩

def toValue (s : Shape) : Value := .record
  [("mode", .string s.mode.name),
   ("line_count", .ofNat s.lineCount),
   ("avg_line_len", .ofFloat s.averageLineLength),
   ("digit_ratio", .ofFloat s.digitRatio),
   ("special_ratio", .ofFloat s.specialRatio),
   ("upper_ratio", .ofFloat s.upperRatio),
   ("time_markers", .ofNat s.timeMarkers),
   ("list_markers", .ofNat s.listMarkers),
   ("table_markers", .ofNat s.tableMarkers),
   ("identifiers", .ofNat s.identifiers)]

def fieldNames : List String :=
  ["mode", "line_count", "avg_line_len", "digit_ratio", "special_ratio", "upper_ratio",
   "time_markers", "list_markers", "table_markers", "identifiers"]

def ofDocument? (d : Document) : Option Shape := do
  match ← record? fieldNames d with
  | [some mode, some lines, some average, some digits, some special, some upper,
      some time, some list, some table, some identifiers] =>
    some ⟨← Mode.ofDocument? mode, ← count? lines, ← float? average, ← float? digits,
      ← float? special, ← float? upper, ← count? time, ← count? list, ← count? table,
      ← count? identifiers⟩
  | _ => none

theorem canonicalToValue (s : Shape) : s.toValue.Canonical := by
  refine Value.canonicalRecord (fun p hp => ?_)
  simp only [List.mem_cons, List.not_mem_nil, or_false] at hp
  rcases hp with rfl | rfl | rfl | rfl | rfl | rfl | rfl | rfl | rfl | rfl <;>
    simp only [Value.canonicalOfNat, Value.canonicalOfFloat]
  exact .string

end Shape

structure Distribution where
  tokenEntropy : Float
  repeatability : Float
  vocabulary : Nat
  deriving Repr

namespace Distribution

def empty : Distribution := ⟨0.0, 0.0, 0⟩

def toValue (s : Distribution) : Value := .record
  [("token_entropy", .ofFloat s.tokenEntropy),
   ("repeatability_score", .ofFloat s.repeatability),
   ("vocab_size", .ofNat s.vocabulary)]

def fieldNames : List String := ["token_entropy", "repeatability_score", "vocab_size"]

def ofDocument? (d : Document) : Option Distribution := do
  match ← record? fieldNames d with
  | [some entropy, some repeatability, some vocabulary] =>
    some ⟨← float? entropy, ← float? repeatability, ← count? vocabulary⟩
  | _ => none

theorem canonicalToValue (s : Distribution) : s.toValue.Canonical := by
  refine Value.canonicalRecord (fun p hp => ?_)
  simp only [List.mem_cons, List.not_mem_nil, or_false] at hp
  rcases hp with rfl | rfl | rfl <;> simp only [Value.canonicalOfNat, Value.canonicalOfFloat]

end Distribution

structure Stability where
  conflict : Bool
  orderSensitive : Bool
  deriving DecidableEq, Repr

namespace Stability

def empty : Stability := ⟨false, false⟩

def toValue (s : Stability) : Value := .record
  [("conflict", .bool s.conflict), ("order_sensitive", .bool s.orderSensitive)]

def fieldNames : List String := ["conflict", "order_sensitive"]

def ofDocument? (d : Document) : Option Stability := do
  match ← record? fieldNames d with
  | [some conflict, some orderSensitive] => some ⟨← bool? conflict, ← bool? orderSensitive⟩
  | _ => none

theorem canonicalToValue (s : Stability) : s.toValue.Canonical := by
  refine Value.canonicalRecord (fun p hp => ?_)
  simp only [List.mem_cons, List.not_mem_nil, or_false] at hp
  rcases hp with rfl | rfl <;> exact .bool

end Stability

structure Signature where
  shape : Shape
  distribution : Distribution
  stability : Stability
  deriving Repr

namespace Signature

def empty : Signature := ⟨.empty, .empty, .empty⟩

def mode (s : Signature) : Mode := s.shape.mode

def toValue (s : Signature) : Value := .record
  [("struct", s.shape.toValue), ("dist", s.distribution.toValue), ("stab", s.stability.toValue)]

def fieldNames : List String := ["struct", "dist", "stab"]

def ofDocument? (d : Document) : Option Signature := do
  match ← record? fieldNames d with
  | [some shape, some distribution, some stability] =>
    some ⟨← Shape.ofDocument? shape, ← Distribution.ofDocument? distribution,
      ← Stability.ofDocument? stability⟩
  | _ => none

theorem canonicalToValue (s : Signature) : s.toValue.Canonical := by
  refine Value.canonicalRecord (fun p hp => ?_)
  simp only [List.mem_cons, List.not_mem_nil, or_false] at hp
  rcases hp with rfl | rfl | rfl
  · exact s.shape.canonicalToValue
  · exact s.distribution.canonicalToValue
  · exact s.stability.canonicalToValue

end Signature

end Intake
