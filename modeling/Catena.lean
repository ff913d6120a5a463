import Catena.Action
import Catena.CommandLine
import Catena.Console
import Catena.Decimal.Binary64
import Catena.Decimal.Numeral
import Catena.Decimal.Power
import Catena.Decimal.Shortest
import Catena.Dependency
import Catena.Diagnostic
import Catena.Evaluation
import Catena.Fault
import Catena.FileSystem
import Catena.Function
import Catena.Input
import Catena.Interpreter
import Catena.Library
import Catena.Linking
import Catena.Loader
import Catena.Main
import Catena.Namespace
import Catena.Native
import Catena.Number
import Catena.OrderedMap
import Catena.Position
import Catena.Proofs.Dependency
import Catena.Proofs.Evaluation.Blame
import Catena.Proofs.Evaluation.Correspondence
import Catena.Proofs.Evaluation.Course
import Catena.Proofs.Evaluation.Discipline
import Catena.Proofs.Evaluation.Fidelity
import Catena.Proofs.Evaluation.Fuel
import Catena.Proofs.Evaluation.Imports
import Catena.Proofs.Evaluation.Library
import Catena.Proofs.Evaluation.Linked
import Catena.Proofs.Evaluation.Locals
import Catena.Proofs.Evaluation.Renaming
import Catena.Proofs.Evaluation.Run
import Catena.Proofs.Evaluation.Stock
import Catena.Proofs.Evaluation.Termination
import Catena.Proofs.Evaluation.Visits
import Catena.Proofs.FileSystem
import Catena.Proofs.Linking.Circles
import Catena.Proofs.Linking.Keys
import Catena.Proofs.Linking.Names
import Catena.Proofs.Linking.Order
import Catena.Proofs.Linking.Plan
import Catena.Proofs.Linking.Remembered
import Catena.Proofs.Linking.Steps
import Catena.Proofs.Loader
import Catena.Proofs.Namespace
import Catena.Proofs.Scope
import Catena.Proofs.Scope.Bodies
import Catena.Proofs.Scope.Names
import Catena.Proofs.Scope.Renaming
import Catena.Proofs.Session
import Catena.Proofs.Source.Layout
import Catena.Proofs.Source.Lexeme
import Catena.Proofs.Tree.Derivation
import Catena.Proofs.Tree.Naming
import Catena.Proofs.Tree.Node
import Catena.Proofs.Tree.Phrases
import Catena.Proofs.Tree.Reading
import Catena.Proofs.Tree.Recognition
import Catena.Report
import Catena.Scope
import Catena.Session
import Catena.Source.Piece
import Catena.Source.Scan
import Catena.Source.Token
import Catena.Stack
import Catena.Text.Blank
import Catena.Text.Case
import Catena.Text.CaseTable
import Catena.Text.Erasure
import Catena.Text.Extender
import Catena.Text.Grapheme
import Catena.Text.JoiningTable
import Catena.Text.Quoted
import Catena.Text.Substitution
import Catena.Text.Unprintable
import Catena.Tree.Grammar
import Catena.Tree.Import
import Catena.Tree.Node
import Catena.Tree.Outline
import Catena.Tree.Phrase
import Catena.Value
import Catena.ValueType
import Catena.Proofs.Evaluation.Seclusion
import Catena.Proofs.Evaluation.Escape
import Catena.Proofs.Evaluation.Likeness
import Catena.Proofs.Evaluation.Translation
import Catena.Proofs.Tree.Seam
import Catena.Proofs.Scope.Likeness
import Catena.Proofs.Linking.Likeness
import Catena.Proofs.Evaluation.Sameness
import Catena.Proofs.TypedArray
import Catena.Proofs.Evaluation.Arrays
import Catena.Proofs.Evaluation.Depth
import Catena.Proofs.Evaluation.Provenance
import Catena.Proofs.Linking.Nodes
import Catena.Proofs.Tree.Sites
import Catena.Proofs.Report
import Catena.Proofs.Linking.Reported
import Catena.Proofs.Session.Reported
import Catena.Dependency.Search
import Catena.Loader.Instances
import Catena.Proofs.Dependency.Search
import Catena.Proofs.Loader.Instances
import Catena.Proofs.Evaluation.Contracts
import Catena.Proofs.Linking.Nesting
import Catena.Proofs.Text.Substitution
import Catena.Proofs.Evaluation.Format
import Catena.Proofs.Evaluation.Currying
import Catena.Proofs.Tree.Heads
import Catena.Proofs.Evaluation.Signatures
import Catena.Proofs.Evaluation.Offering
import Catena.Proofs.Evaluation.ImportBindings
import Catena.Proofs.Scope.Violations
import Catena.Proofs.Namespace.History
import Catena.Proofs.Tree.Places
import Catena.Proofs.Tree.Spacing
import Catena.Proofs.Text.Quoted
import Catena.Proofs.Tree.Textual
import Catena.Proofs.Tree.Literals
import Catena.Proofs.Tree.Outline
import Catena.Proofs.Tree.Printed
import Catena.Proofs.Source.Escape
import Catena.Proofs.Linking.Creation
import Catena.Proofs.Evaluation.Creation
import Catena.Proofs.Session.Together
import Catena.Proofs.Session.Locals
import Catena.Proofs.Session.Identity
