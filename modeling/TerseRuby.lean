import TerseRuby.Minifier
import TerseRuby.Session
import TerseRuby.Buffer
import TerseRuby.Tree.Encode
import TerseRuby.Tree.Equality
import TerseRuby.Tree.Walk
import TerseRuby.Proofs.Literal.Scanner
import TerseRuby.Proofs.Writing
import TerseRuby.Proofs.Reading.Lexeme
import TerseRuby.Proofs.Expression.Syntax
import TerseRuby.Proofs.Expression.Tree
import TerseRuby.Proofs.Expression.Reader
import TerseRuby.Proofs.Expression.AsRead
import TerseRuby.Proofs.Expression.RoundTrip
import TerseRuby.Proofs.Expression.KeywordLogic
import TerseRuby.Proofs.Statement.Syntax
import TerseRuby.Proofs.Statement.Reader
import TerseRuby.Proofs.Statement.Tree
import TerseRuby.Proofs.Statement.Writing
import TerseRuby.Proofs.Statement.RoundTrip
import TerseRuby.Proofs.Tree.Serialized
import TerseRuby.Proofs.Literal.Slots
import TerseRuby.Proofs.Tree.Text
import TerseRuby.Proofs.Rendering.Separator
import TerseRuby.Proofs.Locals.Tracking
import TerseRuby.Proofs.Rendering.Concatenation
import TerseRuby.Proofs.Trivia.Stripping
import TerseRuby.Proofs.Spacing.Cosmetic
import TerseRuby.Proofs.Session.Scoping
import TerseRuby.Proofs.Blocks.Braces
import TerseRuby.Proofs.Acceptance.Total
import TerseRuby.Proofs.Json.Canonical
import TerseRuby.Proofs.Tree.Canonical
import TerseRuby.Proofs.Rendering.Outcome
import TerseRuby.Proofs.Locals.Postfix
import TerseRuby.Proofs.Tokens.Lexer
import TerseRuby.Proofs.Tokens.Literals
import TerseRuby.Proofs.Tokens.Parts
import TerseRuby.Proofs.Tokens.Rules
import TerseRuby.Proofs.Tokens.Nodes
import TerseRuby.Proofs.Tokens.Beginning
import TerseRuby.Proofs.Tokens.Infix
import TerseRuby.Proofs.Expression.Grouping
import TerseRuby.Proofs.Acceptance.Calls
import TerseRuby.Proofs.Tokens.Opening
import TerseRuby.Proofs.Tokens.Delimited
import TerseRuby.Proofs.Literal.Spelling
import TerseRuby.Proofs.Number.Literal
import TerseRuby.Proofs.Parameters.Signature
import TerseRuby.Proofs.Parameters.RoundTrip
import TerseRuby.Proofs.Edges.Ink
import TerseRuby.Proofs.Edges.Expression
import TerseRuby.Proofs.Edges.File
import TerseRuby.Proofs.Literal.Escaping
import TerseRuby.Proofs.Literal.Merging
import TerseRuby.Proofs.Tree.Walking
import TerseRuby.Proofs.Minifying.Batch
