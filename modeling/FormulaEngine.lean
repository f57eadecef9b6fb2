import FormulaEngine.Number.DecimalArithmetic
import FormulaEngine.Number.FloatArithmetic
import FormulaEngine.Number.FloatText
import FormulaEngine.Text.Letter
import FormulaEngine.Text.Lowercase
import FormulaEngine.Time.MomentText
import FormulaEngine.Operator
import FormulaEngine.Value.Literal
import FormulaEngine.Grammar.SyntaxError
import FormulaEngine.Grammar.Region
import FormulaEngine.Grammar.ExprText
import FormulaEngine.Grammar.Parser
import FormulaEngine.Grammar.Reader
import FormulaEngine.Grammar.ParserAnswer
import FormulaEngine.Grammar.Parse
import FormulaEngine.Evaluation.Parameters
import FormulaEngine.Evaluation.ParameterTable
import FormulaEngine.Evaluation.BuiltinCall
import FormulaEngine.Evaluation.Evaluate
import FormulaEngine.Evaluation.InPlace
import FormulaEngine.Json.OfValue
import FormulaEngine.Json.Read
import FormulaEngine.Formula.Shelf
import FormulaEngine.Formula.Workspace
import FormulaEngine.CommandLine
import FormulaEngine.Main
import FormulaEngine.Proofs.Outcome
import FormulaEngine.Proofs.Derivation
import FormulaEngine.Proofs.Reading
import FormulaEngine.Proofs.ViablePrefix
import FormulaEngine.Proofs.ParserCalls
import FormulaEngine.Proofs.StringItems
import FormulaEngine.Proofs.Carving
import FormulaEngine.Proofs.Spelling
import FormulaEngine.Proofs.Rendering
import FormulaEngine.Proofs.MomentReading
import FormulaEngine.Proofs.FloatText
import FormulaEngine.Proofs.Outline
import FormulaEngine.Proofs.Reparsing
import FormulaEngine.Proofs.Broadcast
import FormulaEngine.Proofs.Frame
import FormulaEngine.Proofs.WithoutHooks
import FormulaEngine.Proofs.CacheContents
import FormulaEngine.Proofs.Sharing
import FormulaEngine.Proofs.Lifecycle
import FormulaEngine.Proofs.Coverage
import FormulaEngine.Proofs.OrderedEntries
import FormulaEngine.Proofs.ValueFailures
import FormulaEngine.Proofs.PassSteps
import FormulaEngine.Proofs.SideBySide
import FormulaEngine.Proofs.HostCalls
import FormulaEngine.Proofs.Dependence
import FormulaEngine.Proofs.ResolverCalls
import FormulaEngine.Proofs.StrictEvaluation
import FormulaEngine.Proofs.LaterArguments
import FormulaEngine.Proofs.AskedNames
import FormulaEngine.Proofs.IntegerArithmetic
import FormulaEngine.Proofs.WholeDecimals
import FormulaEngine.Proofs.CacheCounts
import FormulaEngine.Proofs.IgnoredCase
import FormulaEngine.Proofs.OrderLaws
import FormulaEngine.Proofs.Numerals
import FormulaEngine.Proofs.Spacing
import FormulaEngine.Proofs.StringLiterals
import FormulaEngine.Proofs.IntegerTexts
import FormulaEngine.Proofs.ParameterTokens
import FormulaEngine.Proofs.JsonValues
import FormulaEngine.Proofs.BitwiseOperators
