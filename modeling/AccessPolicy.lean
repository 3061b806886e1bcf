import AccessPolicy.Main
import AccessPolicy.Store.Update
import AccessPolicy.Proofs.Rule.Grammar
import AccessPolicy.Proofs.Rule.Parsing
import AccessPolicy.Proofs.Evaluation.Equivalence
import AccessPolicy.Proofs.Rule.Reading
import AccessPolicy.Proofs.Check.Branches
import AccessPolicy.Proofs.Evaluation.Meaning
import AccessPolicy.Proofs.Evaluation.Budget
import AccessPolicy.Proofs.Evaluation.Acyclic
import AccessPolicy.Proofs.Evaluation.DepthLimit
import AccessPolicy.Proofs.Check.WellFormed
import AccessPolicy.Proofs.Rule.Layout
import AccessPolicy.Proofs.Rule.Canonical
import AccessPolicy.Proofs.Evaluation.Reach
import AccessPolicy.Proofs.Evaluation.Cycles
import AccessPolicy.Proofs.Evaluation.Dependence
import AccessPolicy.Proofs.Evaluation.Growth
import AccessPolicy.Proofs.Text.ByteOrder
import AccessPolicy.Proofs.Json.Members
import AccessPolicy.Proofs.Loading.Documents
import AccessPolicy.Proofs.Loading.Precedence
import AccessPolicy.Proofs.Enforcer.History
import AccessPolicy.Proofs.Rule.NestedList
import AccessPolicy.Proofs.Check.Collapse
import AccessPolicy.Proofs.Rule.Syntaxes
import AccessPolicy.Proofs.Store.Export
import AccessPolicy.Proofs.Number.Rounding
import AccessPolicy.Proofs.Number.Shortest
import AccessPolicy.Proofs.Rule.Writing
import AccessPolicy.Proofs.Number.Integral
import AccessPolicy.Proofs.Number.Positional
import AccessPolicy.Proofs.Operand.Agreement
import AccessPolicy.Proofs.Number.Nearest
import AccessPolicy.Proofs.Json.NumberText
import AccessPolicy.Proofs.Operand.Literal
import AccessPolicy.Proofs.Json.Repetition
import AccessPolicy.Proofs.Store.Updates
import AccessPolicy.Proofs.Text.Decoding
import AccessPolicy.Proofs.Json.Quoting
import AccessPolicy.Proofs.CommandLine.Decision
import AccessPolicy.Proofs.Evaluation.WorkBound
import AccessPolicy.Proofs.Setting.Overrides
import AccessPolicy.Proofs.Rule.Alignment
