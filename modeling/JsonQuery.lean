import JsonQuery.Main
import JsonQuery.Proofs.Expr.Postfix
import JsonQuery.Proofs.Expr.Tree
import JsonQuery.Proofs.Expr.Reads
import JsonQuery.Proofs.Function.Registry
import JsonQuery.Proofs.Evaluation.Traversal
import JsonQuery.Proofs.Evaluation.Silence
import JsonQuery.Proofs.Expr.ParserSound
import JsonQuery.Proofs.Expr.ParserComplete
import JsonQuery.Proofs.Expr.Grammar
import JsonQuery.Proofs.Expr.GrammarSound
import JsonQuery.Proofs.Expr.GrammarComplete
import JsonQuery.Proofs.Token.Stream
import JsonQuery.Proofs.Acceptance
import JsonQuery.Proofs.Expr.Literals
import JsonQuery.Proofs.Evaluation.Safety
import JsonQuery.Proofs.Evaluation.FreeVariables
import JsonQuery.Proofs.Number.Numeral
import JsonQuery.Proofs.Token.Written
import JsonQuery.Proofs.Expr.Uniform
import JsonQuery.Proofs.Token.Layout
import JsonQuery.Proofs.Expr.Located
import JsonQuery.Proofs.Spacing
import JsonQuery.Proofs.ErrorLocation
import JsonQuery.Proofs.Token.Spelling
import JsonQuery.Proofs.Expr.Phrase
import JsonQuery.Proofs.Expr.Printable
import JsonQuery.Proofs.Rendering
import JsonQuery.Proofs.Expr.ParserLocated
import JsonQuery.Proofs.Token.Coverage
import JsonQuery.Proofs.LexicalFaults
import JsonQuery.Proofs.Expr.Shape
import JsonQuery.Proofs.Evaluation.WellFormed
import JsonQuery.Proofs.Outcome
import JsonQuery.Proofs.Function.History
import JsonQuery.Proofs.Function.Signature
import JsonQuery.Proofs.Builtin.Asked
import JsonQuery.Proofs.Builtin.Protected
import JsonQuery.Proofs.Function.Alias
import JsonQuery.Proofs.Expr.Primary
import JsonQuery.Proofs.Expr.Chain
import JsonQuery.Proofs.OperatorOrder
import JsonQuery.Proofs.Json.Quoted
import JsonQuery.Proofs.Token.Single
import JsonQuery.Proofs.QuotedNames
import JsonQuery.Proofs.Json.Escapes
import JsonQuery.Proofs.Enclosed
import JsonQuery.Proofs.Evaluation.Slicing
import JsonQuery.Proofs.Json.StableSorting
import JsonQuery.Proofs.Evaluation.Sorting
import JsonQuery.Proofs.Function.Call
import JsonQuery.Proofs.Evaluation.Calls
import JsonQuery.Proofs.Json.Extremes
import JsonQuery.Proofs.Evaluation.Extremes
import JsonQuery.Proofs.Json.Entries
import JsonQuery.Proofs.Json.Equality
import JsonQuery.Proofs.Builtin.Merging
import JsonQuery.Proofs.Evaluation.Merging
import JsonQuery.Proofs.Evaluation.Mapping
import JsonQuery.Proofs.Function.Declaration
import JsonQuery.Proofs.Evaluation.Comparing
import JsonQuery.Proofs.Token.Interleaving
import JsonQuery.Proofs.Expr.Script
import JsonQuery.Proofs.Expr.Unbounded
import JsonQuery.Proofs.Expr.Bounded
import JsonQuery.Proofs.Termination
import JsonQuery.Proofs.Number.Longest
import JsonQuery.Proofs.Token.Numerals
import JsonQuery.Proofs.Number.Exact
import JsonQuery.Proofs.Json.Computed
