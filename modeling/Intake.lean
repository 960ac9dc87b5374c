import Intake.Audit
import Intake.Chunk
import Intake.Compression
import Intake.Config.Basic
import Intake.Config.Check
import Intake.Config.Document
import Intake.Config.Setting
import Intake.Decimal
import Intake.Fault
import Intake.Json.Document
import Intake.Json.Numeral
import Intake.Json.Reader
import Intake.Json.Record
import Intake.Json.Value
import Intake.Metadata
import Intake.Normalization
import Intake.Pattern.Basic
import Intake.Pattern.CharSet
import Intake.Pattern.Class
import Intake.Pattern.Match
import Intake.Pattern.Notation
import Intake.Pipeline
import Intake.Policy
import Intake.Proofs.Compression.Accounts
import Intake.Proofs.Compression.Appending
import Intake.Proofs.Compression.Firsts
import Intake.Proofs.Compression.Groups
import Intake.Proofs.Compression.Indentation
import Intake.Proofs.Compression.Refinement
import Intake.Proofs.Config.Changes
import Intake.Proofs.Config.Construction
import Intake.Proofs.Config.Reading
import Intake.Proofs.Decimal
import Intake.Proofs.Json.Meaning
import Intake.Proofs.Json.Numeral
import Intake.Proofs.Json.Record
import Intake.Proofs.Normalization
import Intake.Proofs.Normalization.Scan
import Intake.Proofs.Pattern.Characters
import Intake.Proofs.Pattern.Compiled
import Intake.Proofs.Pattern.Demand
import Intake.Proofs.Pattern.Instructions
import Intake.Proofs.Pattern.LineWise
import Intake.Proofs.Pattern.Meaning
import Intake.Proofs.Pattern.Patience
import Intake.Proofs.Pattern.Reach
import Intake.Proofs.Pattern.Thorough
import Intake.Proofs.Pipeline.Bytes
import Intake.Proofs.Pipeline.Emptiness
import Intake.Proofs.Pipeline.Endings
import Intake.Proofs.Pipeline.Handing
import Intake.Proofs.Pipeline.Provenance
import Intake.Proofs.Pipeline.Recompression
import Intake.Proofs.Pipeline.Serialization
import Intake.Proofs.Pipeline.Trail
import Intake.Proofs.Safety.Buffering
import Intake.Proofs.Safety.Checked
import Intake.Proofs.Safety.Compression
import Intake.Proofs.Safety.Detection
import Intake.Proofs.Safety.Ingest
import Intake.Proofs.Safety.Windows
import Intake.Proofs.Segment.BlankLines
import Intake.Proofs.Segment.Blocks
import Intake.Proofs.Segment.Buffering
import Intake.Proofs.Segment.Captures
import Intake.Proofs.Segment.Complement
import Intake.Proofs.Segment.Continuation
import Intake.Proofs.Segment.Coverage
import Intake.Proofs.Segment.Extraction
import Intake.Proofs.Segment.Grouping
import Intake.Proofs.Segment.LineBlocks
import Intake.Proofs.Segment.Lossless
import Intake.Proofs.Segment.Markers
import Intake.Proofs.Segment.Numeric
import Intake.Proofs.Segment.Oversized
import Intake.Proofs.Segment.Paragraphs
import Intake.Proofs.Segment.Partition
import Intake.Proofs.Segment.Separation
import Intake.Proofs.Segment.Visibility
import Intake.Proofs.Segment.Windows
import Intake.Proofs.Signature.Counting
import Intake.Proofs.Signature.Frequency
import Intake.Proofs.Signature.LineCounts
import Intake.Proofs.Signature.LineOrder
import Intake.Proofs.Signature.Markers
import Intake.Proofs.Table
import Intake.Proofs.Text.Encoding
import Intake.Proofs.Text.Joined
import Intake.Proofs.Text.Layout
import Intake.Ratio
import Intake.Reading
import Intake.Segment.Boundary
import Intake.Segment.Buffer
import Intake.Segment.Feature
import Intake.Segment.Numeric
import Intake.Segment.Segmenter
import Intake.Segment.Window
import Intake.Selection
import Intake.Signature.Basic
import Intake.Signature.Detector
import Intake.Signature.Frequency
import Intake.Signature.Markers
import Intake.Signature.Mode
import Intake.Table
import Intake.Text.Basic
import Intake.Text.Encoding
import Intake.Text.Lines
import Intake.Unicode.Blank
import Intake.Unicode.Capital
import Intake.Unicode.Folding
import Intake.Unicode.Letter
import Intake.Unicode.Number
import Intake.Unicode.Run
import Intake.Unicode.Word
