import CilSketch.Alias
import CilSketch.Body
import CilSketch.Bytes.Cursor
import CilSketch.Bytes.LittleEndian
import CilSketch.Bytes.RoundTrip
import CilSketch.Bytes.Scalar
import CilSketch.Constant
import CilSketch.Declaration.Attributes
import CilSketch.Declaration.Basic
import CilSketch.Declaration.Edit
import CilSketch.Error
import CilSketch.Event
import CilSketch.Language
import CilSketch.Number.Binary
import CilSketch.Number.Decimal
import CilSketch.Number.Shortest
import CilSketch.Opcode.Basic
import CilSketch.Opcode.Decoder
import CilSketch.Opcode.Mnemonic
import CilSketch.Page
import CilSketch.Projection.Journal
import CilSketch.Projection.Literal
import CilSketch.Projection.Member
import CilSketch.Projection.Options
import CilSketch.Projection.Type
import CilSketch.Proofs.Body.Faults
import CilSketch.Proofs.Body.Layout
import CilSketch.Proofs.Bytes.FixedSize
import CilSketch.Proofs.Bytes.Reads
import CilSketch.Proofs.Bytes.Sequence
import CilSketch.Proofs.Bytes.Session
import CilSketch.Proofs.Constant.Float
import CilSketch.Proofs.Constant.Integer
import CilSketch.Proofs.Constant.Outcome
import CilSketch.Proofs.Constant.Text
import CilSketch.Proofs.Declaration.Components
import CilSketch.Proofs.Literal.Closing
import CilSketch.Proofs.Literal.RoundTrip
import CilSketch.Proofs.Number.Numeral
import CilSketch.Proofs.Number.Rounding
import CilSketch.Proofs.Number.Window
import CilSketch.Proofs.Opcode.Boundaries
import CilSketch.Proofs.Opcode.Items
import CilSketch.Proofs.Opcode.Polling
import CilSketch.Proofs.Opcode.Tiling
import CilSketch.Proofs.Page.Balance
import CilSketch.Proofs.Page.Blocks
import CilSketch.Proofs.Page.Indentation
import CilSketch.Proofs.Page.Index
import CilSketch.Proofs.Page.Laminar
import CilSketch.Proofs.Page.Layout
import CilSketch.Proofs.Page.Lines
import CilSketch.Proofs.Page.Matching
import CilSketch.Proofs.Page.Nesting
import CilSketch.Proofs.Page.Regions
import CilSketch.Proofs.Page.Sequel
import CilSketch.Proofs.Page.Styling
import CilSketch.Proofs.Projection.Accents
import CilSketch.Proofs.Projection.Batch
import CilSketch.Proofs.Projection.Blocks
import CilSketch.Proofs.Projection.Bodies
import CilSketch.Proofs.Projection.Highlighting
import CilSketch.Proofs.Projection.Journal
import CilSketch.Proofs.Projection.Layout
import CilSketch.Proofs.Projection.Legibility
import CilSketch.Proofs.Projection.Lines
import CilSketch.Proofs.Projection.Members
import CilSketch.Proofs.Projection.Nesting
import CilSketch.Proofs.Projection.Newlines
import CilSketch.Proofs.Projection.Outline
import CilSketch.Proofs.Projection.Source
import CilSketch.Proofs.Text.Numeral
import CilSketch.Proofs.Text.Slice
import CilSketch.Proofs.Text.Utf16
import CilSketch.Proofs.Trace.Balance
import CilSketch.Proofs.Trace.Nesting
import CilSketch.Proofs.TypeRef.Splitting
import CilSketch.Reading
import CilSketch.Style
import CilSketch.Text.Digits
import CilSketch.Text.Slice
import CilSketch.Text.Utf16
import CilSketch.TypeRef
