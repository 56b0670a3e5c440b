import SchemaCanvas.Config
import SchemaCanvas.Edit.Operation
import SchemaCanvas.Edit.Rearrange
import SchemaCanvas.Expr.Basic
import SchemaCanvas.Expr.Builtin
import SchemaCanvas.Expr.Eval
import SchemaCanvas.Expr.EvalError
import SchemaCanvas.Expr.Method
import SchemaCanvas.Expr.Parser
import SchemaCanvas.Expr.Scope
import SchemaCanvas.Expr.Template
import SchemaCanvas.Expr.Token
import SchemaCanvas.Expr.Value
import SchemaCanvas.Json.Basic
import SchemaCanvas.Json.Document
import SchemaCanvas.Json.Entries
import SchemaCanvas.Json.Printer
import SchemaCanvas.Keyboard.Chord
import SchemaCanvas.Keyboard.Command
import SchemaCanvas.Number.Binary
import SchemaCanvas.Number.Numeral
import SchemaCanvas.Number.Shortest
import SchemaCanvas.Number.Text
import SchemaCanvas.Number.Word
import SchemaCanvas.Render.Branch
import SchemaCanvas.Render.Component
import SchemaCanvas.Render.Config
import SchemaCanvas.Render.Event
import SchemaCanvas.Render.Link
import SchemaCanvas.Render.Loop
import SchemaCanvas.Render.Output
import SchemaCanvas.Render.Platform
import SchemaCanvas.Render.Render
import SchemaCanvas.Schema.Codec
import SchemaCanvas.Schema.Diagnostic
import SchemaCanvas.Schema.IdPool
import SchemaCanvas.Schema.Ident
import SchemaCanvas.Schema.Load
import SchemaCanvas.Schema.Node
import SchemaCanvas.Schema.Path
import SchemaCanvas.Schema.PropValue
import SchemaCanvas.Schema.Transform
import SchemaCanvas.Selection.State
import SchemaCanvas.Selection.Target
import SchemaCanvas.Session.Action
import SchemaCanvas.Session.Basic
import SchemaCanvas.Session.Keyboard
import SchemaCanvas.Text.Blank
import SchemaCanvas.Text.Case
import SchemaCanvas.Text.CaseTable
import SchemaCanvas.Text.PropertyTable
import SchemaCanvas.Text.Quoted
import SchemaCanvas.Text.Search
import SchemaCanvas.Proofs.Edit.Outcome
import SchemaCanvas.Proofs.Ids.Fresh
import SchemaCanvas.Proofs.Ids.Places
import SchemaCanvas.Proofs.Ids.Edited
import SchemaCanvas.Proofs.Session.Run
import SchemaCanvas.Proofs.Session.Identity
import SchemaCanvas.Proofs.Selection.Moves
import SchemaCanvas.Proofs.Session.Level
import SchemaCanvas.Proofs.Schema.Find
import SchemaCanvas.Proofs.Session.Dormancy
import SchemaCanvas.Proofs.Session.Rejection
import SchemaCanvas.Proofs.Schema.Literals
import SchemaCanvas.Proofs.Session.HandOff
import SchemaCanvas.Proofs.Schema.Fields
import SchemaCanvas.Proofs.Schema.Pieces
import SchemaCanvas.Proofs.Schema.Validity
import SchemaCanvas.Proofs.Json.Numeral
import SchemaCanvas.Proofs.Json.Reading
import SchemaCanvas.Proofs.Json.Order
import SchemaCanvas.Proofs.Ids.Kept
import SchemaCanvas.Proofs.Schema.Reread
import SchemaCanvas.Proofs.Schema.Saved
import SchemaCanvas.Proofs.Json.Nesting
import SchemaCanvas.Proofs.Schema.Nesting
import SchemaCanvas.Proofs.Render.Outcome
import SchemaCanvas.Proofs.Render.Placement
import SchemaCanvas.Proofs.Render.Paths
import SchemaCanvas.Proofs.Schema.Subtree
import SchemaCanvas.Proofs.Render.Addresses
import SchemaCanvas.Proofs.Render.Origin
import SchemaCanvas.Proofs.Render.Depth
import SchemaCanvas.Proofs.Render.Calls
import SchemaCanvas.Proofs.Render.Reentry
import SchemaCanvas.Proofs.Ids.Unique
import SchemaCanvas.Proofs.Ids.Unnamed
import SchemaCanvas.Proofs.Edit.Landing
import SchemaCanvas.Proofs.Edit.Clipboard
import SchemaCanvas.Proofs.Session.FollowUp
import SchemaCanvas.Proofs.Number.Bits
import SchemaCanvas.Proofs.Expr.Canonical
import SchemaCanvas.Proofs.Expr.Reader
import SchemaCanvas.Proofs.Expr.Size
import SchemaCanvas.Proofs.Expr.Made
import SchemaCanvas.Proofs.Expr.Front
import SchemaCanvas.Proofs.Expr.Reread
import SchemaCanvas.Proofs.Expr.Unrolled
import SchemaCanvas.Proofs.Expr.Depth
import SchemaCanvas.Proofs.Expr.Scanning
import SchemaCanvas.Proofs.Expr.Failure
import SchemaCanvas.Proofs.Schema.Expressions
import SchemaCanvas.Proofs.Session.Notice
import SchemaCanvas.Proofs.Schema.Alike
import SchemaCanvas.Proofs.Render.Copies
import SchemaCanvas.Proofs.Render.Local
import SchemaCanvas.Proofs.Expr.Names
import SchemaCanvas.Proofs.Render.Defaults
import SchemaCanvas.Proofs.Edit.Relocation
import SchemaCanvas.Proofs.Ids.Repaired
import SchemaCanvas.Proofs.Ids.Renewed
import SchemaCanvas.Proofs.Edit.Duplicate
import SchemaCanvas.Proofs.Selection.Pointer
import SchemaCanvas.Proofs.Schema.Preorder
import SchemaCanvas.Proofs.Edit.Recorded
import SchemaCanvas.Proofs.Edit.Content
import SchemaCanvas.Proofs.Edit.Exchange
import SchemaCanvas.Proofs.Selection.Drilling
import SchemaCanvas.Proofs.Selection.Keyboard
import SchemaCanvas.Proofs.Expr.Receiver
import SchemaCanvas.Proofs.Render.Surface
import SchemaCanvas.Proofs.Expr.Chain
import SchemaCanvas.Proofs.Expr.Holes
import SchemaCanvas.Proofs.Number.Rounding
import SchemaCanvas.Proofs.Number.Written
import SchemaCanvas.Proofs.Number.Display
import SchemaCanvas.Proofs.Render.Conditions
import SchemaCanvas.Proofs.Schema.Pointer
import SchemaCanvas.Proofs.Text.Bytes
import SchemaCanvas.Proofs.Expr.Nearest
import SchemaCanvas.Proofs.Expr.Segments
import SchemaCanvas.Proofs.Expr.DotPath
import SchemaCanvas.Proofs.Expr.Stack
import SchemaCanvas.Proofs.Expr.Callbacks
import SchemaCanvas.Proofs.Expr.FreeNames
import SchemaCanvas.Proofs.Number.Digits
import SchemaCanvas.Proofs.Render.ItemPaths
import SchemaCanvas.Proofs.Text.Slice
import SchemaCanvas.Proofs.Expr.Lexemes
import SchemaCanvas.Proofs.Expr.Cursor
import SchemaCanvas.Proofs.Expr.Spans
import SchemaCanvas.Proofs.Expr.Spelling
import SchemaCanvas.Proofs.Number.Nearest
import SchemaCanvas.Proofs.Number.Arithmetic
import SchemaCanvas.Proofs.Number.Whole
import SchemaCanvas.Proofs.Number.Decimals
import SchemaCanvas.Proofs.Expr.Ranges
import SchemaCanvas.Proofs.Text.Occurrence
import SchemaCanvas.Proofs.Expr.Positions
import SchemaCanvas.Proofs.Expr.Splitting
import SchemaCanvas.Proofs.Expr.Numerals
import SchemaCanvas.Proofs.Render.Layering
import SchemaCanvas.Proofs.Expr.Equality
import SchemaCanvas.Proofs.Edit.Focus
