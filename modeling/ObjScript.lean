import ObjScript.Text.Blank
import ObjScript.Text.Printable
import ObjScript.Text.Word
import ObjScript.Text.Quoted
import ObjScript.Text.Escape
import ObjScript.Number.Text
import ObjScript.Number.Numeral
import ObjScript.Token.Lexeme
import ObjScript.Token.Lexer
import ObjScript.Syntax.Outline
import ObjScript.Parser.Program
import ObjScript.Scope.Resolve
import ObjScript.Store.Text
import ObjScript.Eval.Interpreter
import ObjScript.Session
import ObjScript.CommandLine
import ObjScript.Prompt.Dialogue
import ObjScript.Prompt.Highlight
import ObjScript.Main
import ObjScript.Proofs.Parser.Reading
import ObjScript.Proofs.Syntax.Nodes
import ObjScript.Proofs.Parser.Rules
import ObjScript.Proofs.Parser.Program
import ObjScript.Proofs.Number.Exact
import ObjScript.Proofs.Number.Spelling
import ObjScript.Proofs.Number.Grammar
import ObjScript.Proofs.Syntax.Tokens
import ObjScript.Proofs.Parser.RoundTrip
import ObjScript.Proofs.Parser.Yield
import ObjScript.Proofs.Parser.Spelled
import ObjScript.Proofs.Bindings
import ObjScript.Proofs.Scope.Visits
import ObjScript.Proofs.Scope.Apart
import ObjScript.Proofs.Syntax.Depths
import ObjScript.Proofs.Store.Depths
import ObjScript.Proofs.Store.Values
import ObjScript.Proofs.Eval.Tame
import ObjScript.Proofs.Eval.Tracked
import ObjScript.Proofs.Eval.Alignment
import ObjScript.Proofs.Eval.Simulation
import ObjScript.Proofs.Eval.Frames
import ObjScript.Proofs.Eval.Variables
import ObjScript.Proofs.Eval.Evaluation
import ObjScript.Proofs.Eval.Execution
import ObjScript.Proofs.Parser.Source
import ObjScript.Proofs.Session.Alignment
import ObjScript.Proofs.Session.Lookup
import ObjScript.Proofs.Scope.Reports
import ObjScript.Proofs.Session.Pieces
import ObjScript.Proofs.Syntax.Places
import ObjScript.Proofs.Store.Later
import ObjScript.Proofs.Store.Sound
import ObjScript.Proofs.Eval.Quiet
import ObjScript.Proofs.Eval.Watched
import ObjScript.Proofs.Eval.Regime
import ObjScript.Proofs.Eval.Keeps
import ObjScript.Proofs.Eval.Agreement
import ObjScript.Proofs.Eval.Isolation
import ObjScript.Proofs.Parser.Names
import ObjScript.Proofs.Scope.Sites
import ObjScript.Proofs.Store.Methods
import ObjScript.Proofs.Session.Code
import ObjScript.Proofs.Session.Dispatch
import ObjScript.Proofs.Scope.Lineage
import ObjScript.Proofs.Scope.Members
import ObjScript.Proofs.Scope.Notes
import ObjScript.Proofs.Store.Nesting
import ObjScript.Proofs.Session.Printing
import ObjScript.Proofs.Store.Properties
import ObjScript.Proofs.Session.Live
import ObjScript.Proofs.Token.Spelling
import ObjScript.Proofs.Eval.Failures
import ObjScript.Proofs.Session.Malformed
import ObjScript.Proofs.Session.Failures
import ObjScript.Proofs.Session.Properties
import ObjScript.Proofs.Text.Breaks
import ObjScript.Proofs.Eval.Changes
import ObjScript.Proofs.Eval.Swapping
import ObjScript.Proofs.Eval.Envelope
import ObjScript.Proofs.Session.Output
import ObjScript.Proofs.Parser.Tally
import ObjScript.Proofs.Parser.Levels
import ObjScript.Proofs.Session.Entries
import ObjScript.Proofs.Syntax.Unlocated
import ObjScript.Proofs.Parser.Blind
import ObjScript.Proofs.Scope.Blind
import ObjScript.Proofs.Store.Recoded
import ObjScript.Proofs.Eval.Unlocated
import ObjScript.Proofs.Eval.Blind
import ObjScript.Proofs.Session.Layout
import ObjScript.Proofs.Parser.BlockTypes
import ObjScript.Proofs.Parser.Typedefs
import ObjScript.Proofs.Number.Nearest
import ObjScript.Proofs.Number.Shortest
import ObjScript.Proofs.Store.Writes
import ObjScript.Proofs.Prompt.Highlight
import ObjScript.Proofs.Session.Compound
import ObjScript.Proofs.Session.Links
import ObjScript.Proofs.Token.Lines
import ObjScript.Proofs.Token.ClassNames
import ObjScript.Proofs.Session.Redefinition
import ObjScript.Proofs.Parser.Seam
import ObjScript.Proofs.Parser.Joins
import ObjScript.Proofs.Parser.Compose
import ObjScript.Proofs.Parser.Steady
import ObjScript.Proofs.Parser.SteadyRules
import ObjScript.Proofs.Parser.Phrases
import ObjScript.Proofs.Parser.Messages
