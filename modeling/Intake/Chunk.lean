import Intake.Metadata
import Intake.Text.Lines

/-! Chunks: stretches of a text with what is known about them. -/
namespace Intake
open Json (Value Document)
open Json.Document (record? fieldDepth string? count?)

/- A stretch that begins at byte `offset` of its text and is `length` bytes long. -/
structure Chunk where
  content : Text
  metadata : Metadata
  offset : Nat
  length : Nat

namespace Chunk

def of (content : Text) (offset : Nat) (metadata : Metadata := .empty) : Chunk :=
  ⟨content, metadata, offset, content.size⟩

def withMeta (c : Chunk) (key : String) (value : Value)
    (canonical : value.Canonical := by constructor) : Chunk :=
  { c with metadata := c.metadata.set key value canonical }

def withString (c : Chunk) (key text : String) : Chunk := c.withMeta key (.string text)

def firstLine (c : Chunk) : Text := c.content.firstLine

def toValue (c : Chunk) : Value := .record
  [("content", .string (String.ofList c.content)), ("metadata", c.metadata.toValue),
   ("offset", .ofNat c.offset), ("length", .ofNat c.length)]

def fieldNames : List String := ["content", "metadata", "offset", "length"]

def ofDocument? (d : Document) : Option Chunk := do
  match ← record? fieldNames d with
  | [some content, some metadata, some offset, some length] =>
    some ⟨(← string? content).toList, ← Metadata.ofDocument? metadata, ← count? offset,
      ← count? length⟩
  | _ => none

def depth (d : Document) : Nat := fieldDepth fieldNames "metadata" Document.depth d

end Chunk

end Intake
