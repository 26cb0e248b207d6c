import MonkeySyntax.Main
import MonkeySyntax.Token.Lexer
import MonkeySyntax.Proofs.Expression.Shape
import MonkeySyntax.Proofs.Expression.Reading
import MonkeySyntax.Proofs.Expression.Chain
import MonkeySyntax.Proofs.Parser.Outcome
import MonkeySyntax.Proofs.Program.Run
import MonkeySyntax.Proofs.Program.Segment
import MonkeySyntax.Proofs.Program.RoundTrip
import MonkeySyntax.Proofs.Expression.Comparison
import MonkeySyntax.Proofs.Program.Comparison
import MonkeySyntax.Proofs.Program.Isolation
import MonkeySyntax.Proofs.Program.Attempt
import MonkeySyntax.Proofs.Expression.Break
import MonkeySyntax.Proofs.Program.Broken
import MonkeySyntax.Proofs.Program.Recovery
import MonkeySyntax.Proofs.Program.Location
import MonkeySyntax.Proofs.Program.Height
import MonkeySyntax.Proofs.Token.LongestMatch
import MonkeySyntax.Proofs.Token.Cover
import MonkeySyntax.Proofs.Numeral
import MonkeySyntax.Proofs.Program.Literal
import MonkeySyntax.Proofs.Token.Delivery
import MonkeySyntax.Proofs.Program.Operation
import MonkeySyntax.Proofs.Expression.Duration
import MonkeySyntax.Proofs.Program.Duration
import MonkeySyntax.Proofs.Program.Layout
import MonkeySyntax.Proofs.Program.Log
import MonkeySyntax.Proofs.Text.Quoted
import MonkeySyntax.Proofs.Session.Lines
import MonkeySyntax.Proofs.Session.Transcript
import MonkeySyntax.Proofs.Tree.Spelling
import MonkeySyntax.Proofs.Tree.Outline
import MonkeySyntax.Proofs.Program.Plain
import MonkeySyntax.Proofs.Program.Reprint
import MonkeySyntax.Proofs.Expression.Refusal
import MonkeySyntax.Proofs.Program.Refusal
import MonkeySyntax.Proofs.Text.Lines
import MonkeySyntax.Proofs.Numeral.Value
import MonkeySyntax.Proofs.Token.Glue
import MonkeySyntax.Proofs.Token.Pulling
import MonkeySyntax.Proofs.Program.Registration
import MonkeySyntax.Proofs.Diagnostic
import MonkeySyntax.Proofs.Session.Capacity
import MonkeySyntax.Proofs.Session.Echo
import MonkeySyntax.Proofs.Program.Depth
import MonkeySyntax.Proofs.Program.Resumption
