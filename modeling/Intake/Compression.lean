import Intake.Audit
import Intake.Chunk
import Intake.Config.Basic
import Intake.Ratio
import Intake.Policy

/-! Compression of log chunks. Chunks whose first lines open alike form a group; the first of
a group, its root, is kept and answers for all. Under any other policy nothing is dropped. -/
namespace Intake

/- For each root that others were merged into, every index it answers for. -/
abbrev Provenance := Table Nat (List Nat)

structure Compression where
  chunks : List Chunk
  provenance : Provenance
  retained : List Nat
  audit : Audit

namespace Compression
open Json (Value)

def answersFor (provenance : Provenance) (index : Nat) : List Nat :=
  (provenance.get? index).getD [index]

def patternOf (chars : Nat) (c : Chunk) : Text := c.firstLine.take chars

structure Group where
  pattern : Text
  root : Nat
  later : List Nat
  deriving DecidableEq, Repr

namespace Group

def indices (g : Group) : List Nat := g.root :: g.later

/- An index joins the group of its pattern, or opens one behind all others. -/
def add (pattern : Text) (index : Nat) : List Group → List Group
  | [] => [⟨pattern, index, []⟩]
  | g :: rest =>
    if g.pattern = pattern then { g with later := g.later ++ [index] } :: rest
    else g :: add pattern index rest

def ofPatterns (patterns : List Text) : List Group :=
  patterns.zipIdx.foldl (fun groups p => add p.1 p.2 groups) []

end Group

def groups (chars : Nat) (chunks : List Chunk) : List Group :=
  Group.ofPatterns (chunks.map (patternOf chars))

def provenanceOf (gs : List Group) : Provenance :=
  Table.ofList ((gs.filter (fun g => !g.later.isEmpty)).map (fun g => (g.root, g.indices)))

def passthrough (chunks : List Chunk) (p : Policy) : Compression where
  chunks := chunks
  provenance := .empty
  retained := List.range chunks.length
  audit := ⟨"compress", "passthrough",
    ((((Metadata.empty.setString "reason" "policy_not_eligible").setString
      "policy" p.name).setNat
      "original_count" chunks.length).setNat
      "compressed_count" chunks.length).set
      "ratio" (.ofFloat 1.0) (Value.canonicalOfFloat _)⟩

def keptRatio (kept total : Nat) : Float :=
  if total = 0 then 1.0 else Ratio.of kept total

def dedup (chars : Nat) (chunks : List Chunk) (p : Policy) : Compression :=
  let gs := groups chars chunks
  let kept := chunks.zipIdx.filter (fun c => gs.any (fun g => g.root == c.2))
  let provenance := provenanceOf gs
  { chunks := kept.map (·.1)
    provenance := provenance
    retained := kept.map (·.2)
    audit := ⟨"compress", "pattern_dedup",
      ((((Metadata.empty.setString "policy" p.name).setNat
        "original_count" chunks.length).setNat
        "compressed_count" kept.length).set
        "ratio" (.ofFloat (keptRatio kept.length chunks.length)) (Value.canonicalOfFloat _)).setNat
        "merged_roots" provenance.size⟩ }

def compress (c : Config.Compressor) (chunks : List Chunk) (p : Policy) : Compression :=
  match p with
  | .logStream => dedup c.patternPrefixChars.toNat chunks p
  | _ => passthrough chunks p

end Compression

end Intake
