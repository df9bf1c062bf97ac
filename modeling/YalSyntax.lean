import YalSyntax.Position
import YalSyntax.Character
import YalSyntax.Token
import YalSyntax.Token.Kind
import YalSyntax.Token.Spelling
import YalSyntax.Operator
import YalSyntax.Error
import YalSyntax.Lexeme
import YalSyntax.Scan
import YalSyntax.Tree
import YalSyntax.Tree.Equality
import YalSyntax.Reading.Outcome
import YalSyntax.Reading.Expression
import YalSyntax.Reading.Statement
import YalSyntax.Reading
import YalSyntax.Source
import YalSyntax.Comparison
import YalSyntax.Outline
import YalSyntax.Json
import YalSyntax.Encoding
import YalSyntax.Excerpt
import YalSyntax.CommandLine
import YalSyntax.Main
import YalSyntax.Proofs.Grammar
import YalSyntax.Proofs.Grammar.Opening
import YalSyntax.Proofs.Outcome
import YalSyntax.Proofs.Grammar.Soundness.Expression
import YalSyntax.Proofs.Grammar.Soundness.Statement
import YalSyntax.Proofs.Grammar.Completeness.Expression
import YalSyntax.Proofs.Grammar.Replacement
import YalSyntax.Proofs.Grammar.Completeness.Statement
import YalSyntax.Proofs.Grammar.Exactness
import YalSyntax.Proofs.Lexical
import YalSyntax.Proofs.Lexical.Lexeme
import YalSyntax.Proofs.Lexical.Boundary
import YalSyntax.Proofs.Lexical.Lexer
import YalSyntax.Proofs.Lexical.Determinacy
import YalSyntax.Proofs.Lexical.LongestMatch
import YalSyntax.Proofs.Lexical.Lossless
import YalSyntax.Proofs.Lexical.Separated
import YalSyntax.Proofs.Rendering
import YalSyntax.Proofs.Rendering.Expression
import YalSyntax.Proofs.Rendering.Statement
import YalSyntax.Proofs.Rendering.RoundTrip
import YalSyntax.Proofs.Lexical.Resumption
import YalSyntax.Proofs.Nesting
import YalSyntax.Proofs.Nesting.Counts
import YalSyntax.Proofs.Nesting.Expression
import YalSyntax.Proofs.Nesting.Statement
import YalSyntax.Proofs.Nesting.Siblings
import YalSyntax.Proofs.Nesting.Limit
import YalSyntax.Proofs.Reader
import YalSyntax.Proofs.Reader.Expression
import YalSyntax.Proofs.Reader.Statement
import YalSyntax.Proofs.Locality
import YalSyntax.Proofs.Locality.Expression
import YalSyntax.Proofs.Locality.Statement
import YalSyntax.Proofs.Parser
import YalSyntax.Proofs.Grammar.Viability
import YalSyntax.Proofs.Grammar.Viability.Expression
import YalSyntax.Proofs.Grammar.Viability.Statement
import YalSyntax.Proofs.Grammar.Earliest
import YalSyntax.Proofs.Kinds
import YalSyntax.Proofs.Lexical.Filler
import YalSyntax.Proofs.Lexical.Order
import YalSyntax.Proofs.Composition
import YalSyntax.Proofs.Composition.Marks
import YalSyntax.Proofs.Composition.Positions
import YalSyntax.Proofs.Lexical.Concatenation
import YalSyntax.Proofs.Lexical.Printing
import YalSyntax.Proofs.Locality.Extension
import YalSyntax.Proofs.Juxtaposition
import YalSyntax.Proofs.Json.Characters
import YalSyntax.Proofs.Json.Reader
import YalSyntax.Proofs.Encoding
import YalSyntax.Proofs.CommandLine
import YalSyntax.Proofs.Climbing
import YalSyntax.Proofs.Shape
import YalSyntax.Proofs.Height
import YalSyntax.Proofs.Grammar.Surroundings
import YalSyntax.Proofs.Tail
import YalSyntax.Proofs.Diagnostic
import YalSyntax.Proofs.Excerpt
import YalSyntax.Proofs.LineEndings
import YalSyntax.Proofs.Progress
import YalSyntax.Proofs.Dispatch
import YalSyntax.Proofs.Dispatch.Step
import YalSyntax.Proofs.Dispatch.Loop
import YalSyntax.Proofs.Dispatch.Lexeme
import YalSyntax.Proofs.Dispatch.Bounds
