import Intake.Chunk
import Intake.Fault
import Intake.Pattern.Match
import Intake.Pattern.Notation
import Intake.Segment.Numeric

/-! Feature extraction. Rules run in order, each over its matches from left to right, and the
groups of a match in ascending order; of several values for one key the last is kept. -/
namespace Intake

structure CompiledRule where
  matcher : Pattern.Matcher
  mapping : Table UInt64 String
  deriving DecidableEq, Repr

namespace Feature
open Pattern (Found Matcher)

def compile (r : ExtractionRule) : Except Fault CompiledRule :=
  match Pattern.read r.pattern.toList with
  | some p => .ok ⟨p.matcher, r.mapping⟩
  | none => .error (.badPattern r.name)

def compileAll : List ExtractionRule → Except Fault (List CompiledRule)
  | [] => .ok []
  | r :: rest => do
    let rule ← compile r
    let rules ← compileAll rest
    .ok (rule :: rules)

/- A key and the text captured for it. -/
structure Capture where
  key : String
  text : Text
  deriving DecidableEq, Repr

def capturesAt (mapping : Table UInt64 String) (m : Found) : List Capture :=
  mapping.entries.filterMap (fun (index, key) => (m.groupText? index.toNat).map (⟨key, ·⟩))

def capturesOf (content : Text) (r : CompiledRule) : List Capture :=
  (r.matcher.findAll content).flatMap (capturesAt r.mapping)

/- All captures in the order in which they are written down. -/
def captures (rules : List CompiledRule) (content : Text) : List Capture :=
  rules.flatMap (capturesOf content)

def record (m : Metadata) (c : Capture) : Metadata :=
  m.set c.key (Numeric.value c.text) (Numeric.canonicalValue c.text)

def extract (rules : List CompiledRule) (content : Text) : Metadata :=
  (captures rules content).foldl record .empty

def attach (rules : List CompiledRule) (c : Chunk) : Chunk :=
  let features := extract rules c.content
  if features.isEmpty then c
  else c.withMeta "extracted_features" features.toValue features.canonicalToValue

def apply (rules : List CompiledRule) (chunks : List Chunk) : List Chunk :=
  if rules.isEmpty then chunks else chunks.map (attach rules)

/- The distinct keys that the chunks have features for, in ascending order. -/
def keys (rules : List CompiledRule) (chunks : List Chunk) : List String :=
  (Table.ofList ((chunks.flatMap (fun c => (extract rules c.content).keys)).map (·, ()))).keys

end Feature

end Intake
