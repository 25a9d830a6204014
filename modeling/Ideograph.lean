import Ideograph.CommandLine.Arguments
import Ideograph.CommandLine.Batch
import Ideograph.CommandLine.Host
import Ideograph.CommandLine.Memory
import Ideograph.Document.Markup
import Ideograph.Document.Page
import Ideograph.Document.Report
import Ideograph.Document.Svg
import Ideograph.Error
import Ideograph.Expr
import Ideograph.Font.Face
import Ideograph.Font.Parser
import Ideograph.Font.Plain
import Ideograph.Font.Plain.CharMap
import Ideograph.Font.Plain.Chunk
import Ideograph.Font.Plain.Compact
import Ideograph.Font.Plain.Compact.Charstring
import Ideograph.Font.Plain.Compact.Dictionary
import Ideograph.Font.Plain.Compact.Index
import Ideograph.Font.Plain.Compact.Integer
import Ideograph.Font.Plain.Container
import Ideograph.Font.Plain.Metrics
import Ideograph.Font.Plain.Sketch
import Ideograph.Font.Plain.TrueType
import Ideograph.Font.Plain.TrueType.Component
import Ideograph.Font.Plain.TrueType.Contour
import Ideograph.Font.Plain.TrueType.Simple
import Ideograph.Font.Sink
import Ideograph.Glyph
import Ideograph.Glyph.Sources
import Ideograph.Layout
import Ideograph.Lookahead
import Ideograph.Main
import Ideograph.Number.Binary
import Ideograph.Number.Decimal
import Ideograph.Number.Elementary
import Ideograph.Number.Rounding
import Ideograph.Number.Scalar
import Ideograph.Operator
import Ideograph.Parts
import Ideograph.Parts.Builtin
import Ideograph.Path.Arc
import Ideograph.Path.Basic
import Ideograph.Path.Placement
import Ideograph.Path.Reader
import Ideograph.Path.Writer
import Ideograph.Render.Compose
import Ideograph.Render.Engine
import Ideograph.Render.Tree
import Ideograph.Text.Blank
import Ideograph.Text.Hidden
import Ideograph.Text.Quoted
import Ideograph.Traced
import Ideograph.Proofs.CommandLine.Batch
import Ideograph.Proofs.CommandLine.Memory
import Ideograph.Proofs.CommandLine.Page
import Ideograph.Proofs.CommandLine.Session
import Ideograph.Proofs.Document.Scanner
import Ideograph.Proofs.Document.Svg
import Ideograph.Proofs.Expr.Counter
import Ideograph.Proofs.Expr.Nesting
import Ideograph.Proofs.Expr.Owed
import Ideograph.Proofs.Expr.Positions
import Ideograph.Proofs.Font.Face
import Ideograph.Proofs.Font.Pieces
import Ideograph.Proofs.Font.Reading
import Ideograph.Proofs.Font.Scaling
import Ideograph.Proofs.Glyph.Contract
import Ideograph.Proofs.Layout.Inside
import Ideograph.Proofs.Layout.Tiling
import Ideograph.Proofs.Number.Canonical
import Ideograph.Proofs.Number.Closest
import Ideograph.Proofs.Number.Denoted
import Ideograph.Proofs.Number.Exact
import Ideograph.Proofs.Number.Numeral
import Ideograph.Proofs.Number.Order
import Ideograph.Proofs.Number.Precision
import Ideograph.Proofs.Number.Representable
import Ideograph.Proofs.Number.Settled
import Ideograph.Proofs.Number.Ties
import Ideograph.Proofs.Number.Written
import Ideograph.Proofs.Outcome
import Ideograph.Proofs.Parts.Additions
import Ideograph.Proofs.Path.Closings
import Ideograph.Proofs.Path.Damage
import Ideograph.Proofs.Path.Order
import Ideograph.Proofs.Path.Progress
import Ideograph.Proofs.Path.ReadBack
import Ideograph.Proofs.Path.RoundTrip
import Ideograph.Proofs.Path.Unmoved
import Ideograph.Proofs.Render.Agreement
import Ideograph.Proofs.Render.Ascender
import Ideograph.Proofs.Render.Box
import Ideograph.Proofs.Render.Calls
import Ideograph.Proofs.Render.Drift
import Ideograph.Proofs.Render.Exact
import Ideograph.Proofs.Render.Extension
import Ideograph.Proofs.Render.Layered
import Ideograph.Proofs.Render.Limit
import Ideograph.Proofs.Render.Readable
import Ideograph.Proofs.Render.Refinement
import Ideograph.Proofs.Render.Requests
import Ideograph.Proofs.Render.Run
import Ideograph.Proofs.Render.Shortfall
import Ideograph.Proofs.Render.Tiling
import Ideograph.Proofs.Render.Verdict
import Ideograph.Proofs.Render.Visits
