import ShaderLoom.Text.Basic
import ShaderLoom.Text.WhiteSpace
import ShaderLoom.Text.Lines
import ShaderLoom.Text.Occurrence
import ShaderLoom.Text.Numeral
import ShaderLoom.Format
import ShaderLoom.ShaderType
import ShaderLoom.Stage
import ShaderLoom.VideoFrame
import ShaderLoom.Dialect
import ShaderLoom.Text.Identifier
import ShaderLoom.Intrinsic.Basic
import ShaderLoom.Intrinsic.Argument
import ShaderLoom.Intrinsic.Call
import ShaderLoom.Intrinsic.Lowering
import ShaderLoom.Table
import ShaderLoom.Text.Hidden
import ShaderLoom.Text.Quoted
import ShaderLoom.Block
import ShaderLoom.Buffer
import ShaderLoom.Texture
import ShaderLoom.Declaration
import ShaderLoom.Binding
import ShaderLoom.Expansion
import ShaderLoom.Resource
import ShaderLoom.Error.Kind
import ShaderLoom.Reflection
import ShaderLoom.Reading.Stage
import ShaderLoom.Reading.Assignment
import ShaderLoom.Session.State
import ShaderLoom.Error
import ShaderLoom.Source.Item
import ShaderLoom.Program.Basic
import ShaderLoom.Source.Draft
import ShaderLoom.Source.Assembly
import ShaderLoom.Program.Cache
import ShaderLoom.Program.Holders
import ShaderLoom.Resolution
import ShaderLoom.Session.Resources
import ShaderLoom.Session
import ShaderLoom.Workspace
import ShaderLoom.Proofs.Outcome
import ShaderLoom.Proofs.Text.Identifier
import ShaderLoom.Proofs.Intrinsic.Site
import ShaderLoom.Proofs.Text.WhiteSpace
import ShaderLoom.Proofs.Intrinsic.Call
import ShaderLoom.Proofs.Intrinsic.Lowering
import ShaderLoom.Proofs.Intrinsic.Expression
import ShaderLoom.Proofs.Intrinsic.Completeness
import ShaderLoom.Proofs.Program.Cache
import ShaderLoom.Proofs.Text.Nesting
import ShaderLoom.Proofs.Intrinsic.Argument
import ShaderLoom.Proofs.Intrinsic.Splice
import ShaderLoom.Proofs.Intrinsic.SpliceShape
import ShaderLoom.Proofs.Intrinsic.SpliceParts
import ShaderLoom.Proofs.Intrinsic.SpliceAgreement
import ShaderLoom.Proofs.Intrinsic.Grammar
import ShaderLoom.Proofs.Intrinsic.Comment
import ShaderLoom.Proofs.Text.Words
import ShaderLoom.Proofs.Text.Lines
import ShaderLoom.Proofs.Text.Numeral
import ShaderLoom.Proofs.Reading.Qualifier
import ShaderLoom.Proofs.Reading.Line
import ShaderLoom.Proofs.Reading.Variable
import ShaderLoom.Proofs.Reading.Item
import ShaderLoom.Proofs.Source.Stage
import ShaderLoom.Proofs.Source.Draft
import ShaderLoom.Proofs.Reading.Assignment
import ShaderLoom.Proofs.Reading.Uniform
import ShaderLoom.Proofs.Session.Run
import ShaderLoom.Proofs.Source.Assembly
import ShaderLoom.Proofs.Session.Bindings
import ShaderLoom.Proofs.Text.Occurrence
import ShaderLoom.Proofs.Source.BareBlock
import ShaderLoom.Proofs.Session.Collision
import ShaderLoom.Proofs.Source.Entry
import ShaderLoom.Proofs.Source.Readback
import ShaderLoom.Proofs.Source.Head
import ShaderLoom.Proofs.Source.Program
import ShaderLoom.Proofs.Source.Numbering
import ShaderLoom.Proofs.Session.SharedBindings
import ShaderLoom.Proofs.Source.Usage
import ShaderLoom.Proofs.Intrinsic.Kept
import ShaderLoom.Proofs.Intrinsic.Fields
import ShaderLoom.Proofs.Resolution.Selection
import ShaderLoom.Proofs.Resolution
import ShaderLoom.Proofs.Session.SplitProgram
import ShaderLoom.Proofs.Session.Sampled
import ShaderLoom.Proofs.Reading.Attribute
import ShaderLoom.Proofs.Source.Attribute
import ShaderLoom.Proofs.Session.AttributeSpans
import ShaderLoom.Proofs.Program.Handles
import ShaderLoom.Proofs.Session.Build
import ShaderLoom.Proofs.Source.Fault
import ShaderLoom.Proofs.Table
import ShaderLoom.Proofs.Session.Lifecycle
import ShaderLoom.Proofs.Session.Owners
import ShaderLoom.Proofs.Session.Leftover
import ShaderLoom.Proofs.Session.Failure
import ShaderLoom.Proofs.Block.Layout
import ShaderLoom.Proofs.Block.Growth
import ShaderLoom.Proofs.Buffer
import ShaderLoom.Proofs.Source.Pool
import ShaderLoom.Proofs.Source.CallFree
import ShaderLoom.Proofs.Source.Concatenation
import ShaderLoom.Proofs.Source.Varying
import ShaderLoom.Proofs.Source.UniformBlock
import ShaderLoom.Proofs.Source.Origin
import ShaderLoom.Proofs.Session.PlainUniforms
import ShaderLoom.Proofs.Session.Indices
import ShaderLoom.Proofs.Session.LiveUniforms
import ShaderLoom.Proofs.Block.Admission
import ShaderLoom.Proofs.Expansion
import ShaderLoom.Proofs.Source.Lane
import ShaderLoom.Proofs.Source.Columns
import ShaderLoom.Proofs.Reading.Rows
import ShaderLoom.Proofs.Source.Separation
import ShaderLoom.Text.Slice
import ShaderLoom.Cursor.Basic
import ShaderLoom.Cursor.Search
import ShaderLoom.Cursor.Argument
import ShaderLoom.Cursor.Call
import ShaderLoom.Cursor.Rewriting
import ShaderLoom.Proofs.Dialect
import ShaderLoom.Proofs.Text.Slice
import ShaderLoom.Proofs.Cursor.Step
import ShaderLoom.Proofs.Cursor.Search
import ShaderLoom.Proofs.Intrinsic.Stop
import ShaderLoom.Proofs.Cursor.Argument
import ShaderLoom.Proofs.Cursor.Call
import ShaderLoom.Proofs.Cursor.Rewriting
import ShaderLoom.Cursor.Word
import ShaderLoom.Proofs.Text.ByteRun
import ShaderLoom.Proofs.Cursor.Word
import ShaderLoom.WordSum
import ShaderLoom.Reading.RowSearch
import ShaderLoom.Proofs.Reading.RowSearch
import ShaderLoom.Binding.CounterBank
import ShaderLoom.Proofs.Binding.Series
import ShaderLoom.Proofs.Binding.CounterBank
