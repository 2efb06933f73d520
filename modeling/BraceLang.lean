import BraceLang.Location
import BraceLang.Token
import BraceLang.Text.Blank
import BraceLang.Token.Scanner
import BraceLang.Node
import BraceLang.Node.Text
import BraceLang.Diagnostic
import BraceLang.Node.Typing
import BraceLang.Symbol
import BraceLang.Scope.Table
import BraceLang.Scope.Resolution
import BraceLang.Scope.Walk
import BraceLang.Script
import BraceLang.Grammar.SyntaxError
import BraceLang.Grammar.Reader
import BraceLang.Grammar.Scripted
import BraceLang.Grammar.Expression
import BraceLang.Grammar.Statement
import BraceLang.Grammar.Program
import BraceLang.Session
import BraceLang.Analysis
import BraceLang.Event
import BraceLang.CommandLine
import BraceLang.Main
import BraceLang.Proofs.Reading
import BraceLang.Proofs.Expression.Grammar
import BraceLang.Proofs.Expression.Soundness
import BraceLang.Proofs.Expression.Reading
import BraceLang.Proofs.Expression.Completeness
import BraceLang.Proofs.Expression.Exactness
import BraceLang.Proofs.Statement.Grammar
import BraceLang.Proofs.Statement.Reading
import BraceLang.Proofs.Statement.Soundness
import BraceLang.Proofs.Statement.Completeness
import BraceLang.Proofs.Analysis
import BraceLang.Proofs.Scope.Table
import BraceLang.Proofs.Scope.Braces
import BraceLang.Proofs.Scope.Nesting
import BraceLang.Proofs.Rendering.Expression
import BraceLang.Proofs.Rendering.Statement
import BraceLang.Proofs.Rendering.RoundTrip
import BraceLang.Proofs.Resolution.Typing
import BraceLang.Proofs.Resolution.Resolver
import BraceLang.Proofs.Resolution.Frames
import BraceLang.Proofs.Resolution.Agreement
import BraceLang.Proofs.Resolution.SinglePass
import BraceLang.Proofs.Token.Gap
import BraceLang.Proofs.Token.Class
import BraceLang.Proofs.Token.Scanning
import BraceLang.Proofs.Token.Munch
import BraceLang.Proofs.Token.Spacing
import BraceLang.Proofs.Course
import BraceLang.Proofs.Lockstep.Expression
import BraceLang.Proofs.Lockstep.Scripted
import BraceLang.Proofs.Lockstep.Statement
import BraceLang.Proofs.Lockstep.Loops
import BraceLang.Proofs.Scope.Growth
import BraceLang.Proofs.Progress
import BraceLang.Proofs.Statement.Extension
import BraceLang.Proofs.Scope.Pairing
import BraceLang.Proofs.Resumption
import BraceLang.Proofs.Scope.Builtins
import BraceLang.Proofs.Resolution.Unknown
import BraceLang.Proofs.Scope.Locality
import BraceLang.Proofs.Scope.Accounting
import BraceLang.Proofs.Scope.Register
import BraceLang.Proofs.Scope.Consistency
import BraceLang.Proofs.Scope.Shadowing
import BraceLang.Proofs.Scope.Visibility
import BraceLang.Proofs.Scope.WalkOrder
import BraceLang.Proofs.Node.Shape
import BraceLang.Proofs.Node.Value
import BraceLang.Proofs.Statement.Shape
import BraceLang.Proofs.Scope.Regions
import BraceLang.Proofs.Scope.Kinds
import BraceLang.Proofs.Relabelling
import BraceLang.Proofs.Horizon.Reading
import BraceLang.Proofs.Horizon.Expression
import BraceLang.Proofs.Horizon.Scripted
import BraceLang.Proofs.Horizon.Statement
import BraceLang.Proofs.Horizon.Analysis
import BraceLang.Proofs.Layout
import BraceLang.Proofs.BehindEnd
import BraceLang.Proofs.Failure
import BraceLang.Proofs.Token.Order
import BraceLang.Proofs.Node.Lead
import BraceLang.Proofs.Statement.Pointing
import BraceLang.Proofs.Pointing
import BraceLang.Proofs.Scope.Preorder
import BraceLang.Proofs.Replay
import BraceLang.Proofs.Scope.Relabelling
import BraceLang.Proofs.Statement.Types
import BraceLang.Proofs.Renaming
import BraceLang.Proofs.Token.Line
import BraceLang.Proofs.Blame.Expression
import BraceLang.Proofs.Blame.Statement
import BraceLang.Proofs.Blame.Quoting
import BraceLang.Proofs.Vocabulary
import BraceLang.Proofs.CommandLine
import BraceLang.Proofs.Resolution.Inference
import BraceLang.Proofs.Resolution.References
import BraceLang.Proofs.Statement.Matching
import BraceLang.Proofs.Statement.Exchange
import BraceLang.Proofs.Statement.Braced
import BraceLang.Proofs.Scope.Spaced
import BraceLang.Proofs.Statement.ElseIf
import BraceLang.Proofs.Token.Spelling
import BraceLang.Proofs.Token.Composition
import BraceLang.Proofs.Statement.Members
import BraceLang.Proofs.Rendering.Shown
import BraceLang.Proofs.Rendering.Spelled
import BraceLang.Proofs.Rendering.ReadBack
