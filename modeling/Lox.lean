import Lox.Main
import Lox.Console.Highlight
import Lox.Proofs.Reading.Grammar
import Lox.Proofs.Tree.Nodes
import Lox.Proofs.Tree.Render
import Lox.Proofs.Tree.Parts
import Lox.Proofs.Reading.Laws
import Lox.Proofs.Reading.Complete
import Lox.Proofs.Reading.Exact
import Lox.Proofs.Reading.Displaced
import Lox.Proofs.Reading.Renumbered
import Lox.Proofs.Reading.Lexemes
import Lox.Proofs.Reading.Lossless
import Lox.Proofs.Reading.Layout
import Lox.Proofs.Reading.Numbering
import Lox.Proofs.Reading.Scan
import Lox.Proofs.Reading.Places
import Lox.Proofs.Run.Laws
import Lox.Proofs.Run.Finding
import Lox.Proofs.Run.MapFunctions
import Lox.Proofs.Run.Moments
import Lox.Proofs.Run.Raised
import Lox.Proofs.Run.Discipline
import Lox.Proofs.Scoping.Agreement
import Lox.Proofs.Scoping.Found
import Lox.Proofs.Scoping.Once
import Lox.Proofs.Reading.Relocated
import Lox.Proofs.Scoping.Carried
import Lox.Proofs.Scoping.Replaced
import Lox.Proofs.Units.Splitting
import Lox.Proofs.Units.Returning
import Lox.Proofs.Units.Faults
import Lox.Proofs.Units.Walking
import Lox.Proofs.Units.Rejected
import Lox.Proofs.Reading.Descending
import Lox.Proofs.Scoping.Noted
import Lox.Proofs.Units.Recorded
import Lox.Proofs.Respelling.Trees
import Lox.Proofs.Respelling.Surveys
import Lox.Proofs.Respelling.Together
import Lox.Proofs.Respelling.Runs
import Lox.Proofs.Respelling.Renaming
import Lox.Proofs.Units.Renamed
import Lox.Proofs.Console.Inputs
import Lox.Proofs.Reading.Progress
import Lox.Proofs.Reading.Extent
import Lox.Proofs.Reading.Reported
import Lox.Proofs.Reading.Faulty
import Lox.Proofs.Scoping.Occurrences
import Lox.Proofs.Scoping.Nearest
import Lox.Proofs.Scoping.Violations
import Lox.Proofs.Scoping.Walker
import Lox.Proofs.Run.Restored
import Lox.Proofs.Reading.ForLoop
import Lox.Proofs.Reading.TakenApart
import Lox.Proofs.Run.Names
import Lox.Proofs.Run.Rounds
import Lox.Proofs.Run.Links
import Lox.Proofs.Run.Untouched
import Lox.Proofs.Run.Private
import Lox.Proofs.Reading.FirstFault
import Lox.Proofs.Console.Colours
import Lox.Proofs.Console.Continuation
import Lox.Proofs.Console.Return
import Lox.Proofs.Reading.Parentheses
import Lox.Proofs.Run.Chains
import Lox.Proofs.Units.Shape
