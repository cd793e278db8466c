import CommandScript.Main
import CommandScript.Proofs.Environment.Refinement
import CommandScript.Proofs.Machine.StackDiscipline
import CommandScript.Proofs.Printing.RoundTrip
import CommandScript.Proofs.Lexeme.Places
import CommandScript.Proofs.Lexeme.Tokenisation
import CommandScript.Proofs.Machine.Functions
import CommandScript.Proofs.Parser.Depth
import CommandScript.Proofs.Termination.Limits
import CommandScript.Proofs.Termination.Sufficient
import CommandScript.Proofs.Termination.Sessions
import CommandScript.Proofs.Lexeme.Seam
import CommandScript.Proofs.Parser.Alongside
import CommandScript.Proofs.Parser.Seam
import CommandScript.Proofs.Parser.Parts
import CommandScript.Proofs.Walker.Safety
import CommandScript.Proofs.Walker.Transactions
import CommandScript.Proofs.Machine.Origins
import CommandScript.Proofs.Machine.Uniform
import CommandScript.Proofs.Session.Pieces
import CommandScript.Proofs.Parser.Chains
import CommandScript.Proofs.Session.History
import CommandScript.Proofs.Parser.Sources
import CommandScript.Proofs.Command.Binding
import CommandScript.Proofs.Machine.CallChain
import CommandScript.Proofs.Expr.Operators
import CommandScript.Proofs.Parser.CommentText
import CommandScript.Proofs.Command.Required
import CommandScript.Proofs.Machine.Assignments
import CommandScript.Proofs.Machine.Recursion
import CommandScript.Proofs.Session.Recursion
import CommandScript.Proofs.Parser.Positions
import CommandScript.Proofs.Lexeme.Quotes
import CommandScript.Proofs.Frames.Writes
import CommandScript.Proofs.Session.Callable
import CommandScript.Proofs.Console.Lines
