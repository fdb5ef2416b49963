import Lox.Main
import Lox.Proofs.Parse.Lookahead
import Lox.Proofs.Grammar.Derivation
import Lox.Proofs.Grammar.Brackets
import Lox.Proofs.Grammar.Shape
import Lox.Proofs.Grammar.DerivationShape
import Lox.Proofs.Grammar.Broken
import Lox.Proofs.Parse.Expressions
import Lox.Proofs.Parse.Statements
import Lox.Proofs.Parse.Containment
import Lox.Proofs.Parse.Leak
import Lox.Proofs.Parse.Pieces
import Lox.Proofs.Run.Discipline
import Lox.Proofs.Run.Host
import Lox.Proofs.Run.Frame
import Lox.Proofs.Scoping.Chain
import Lox.Proofs.Scoping.Sound
import Lox.Proofs.Attempt
import Lox.Proofs.Unlined.Basic
import Lox.Proofs.Recast.Machine
import Lox.Proofs.Recast.Steps
import Lox.Proofs.Unlined.Run
import Lox.Proofs.Run.Fuel
import Lox.Proofs.Unlined.Parse
import Lox.Proofs.Unlined.Scan
import Lox.Proofs.Run.Session
import Lox.Proofs.Run.Limit
import Lox.Proofs.Mirror.Pairs
import Lox.Proofs.Mirror.Store
import Lox.Proofs.Unlined.Layout
import Lox.Proofs.Mirror.Run
import Lox.Proofs.Run.Growth
import Lox.Proofs.Mirror.WellFormed
import Lox.Proofs.Mirror.Confined
import Lox.Proofs.Scan.Longest
import Lox.Proofs.Scan.Placement
import Lox.Proofs.Diagnostics
import Lox.Proofs.Number.Shortest
import Lox.Proofs.Number.Text
import Lox.Proofs.Text.Quoted
import Lox.Proofs.Tree.Form
import Lox.Proofs.Tree.Printer
import Lox.Proofs.ForLoop.Direct
import Lox.Proofs.ForLoop.Blocks
import Lox.Proofs.ForLoop.Meaning
import Lox.Proofs.Store.Graph
import Lox.Proofs.Parse.Stopping
import Lox.Proofs.Scan.Respaced
import Lox.Proofs.Run.Ungrouped
import Lox.Proofs.Text.Lines
import Lox.Proofs.Scan.Quoted
import Lox.Proofs.Run.Blank
import Lox.Proofs.Run.Repl
import Lox.Proofs.Value.Count
import Lox.Proofs.Number.Whole
import Lox.Proofs.Value.Strings
import Lox.Proofs.CommandLine.Arguments
import Lox.Proofs.Scan.Listing
import Lox.Proofs.Grammar.Spans
import Lox.Proofs.Parse.StatementLines
import Lox.Proofs.Parse.Window
import Lox.Proofs.Scan.Joined
