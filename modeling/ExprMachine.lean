import ExprMachine.Main
import ExprMachine.Proofs.Compilation.Correctness
import ExprMachine.Proofs.Compilation.Safety
import ExprMachine.Proofs.Parsing.Programs
import ExprMachine.Proofs.Compilation.Actions
import ExprMachine.Proofs.Compilation.References
import ExprMachine.Proofs.Machine.Mirroring
import ExprMachine.Proofs.Compilation.Mirroring
import ExprMachine.Proofs.Compilation.Verdicts
import ExprMachine.Proofs.Session.Inputs
import ExprMachine.Proofs.Session.Failures
import ExprMachine.Proofs.Compilation.Globals
import ExprMachine.Proofs.Parsing.Literals
import ExprMachine.Proofs.Session.Accounts
import ExprMachine.Proofs.Lexing
import ExprMachine.Proofs.Parsing.Appending
import ExprMachine.Proofs.Compilation.Appending
import ExprMachine.Proofs.Session.Lines
import ExprMachine.Proofs.Streams
import ExprMachine.Proofs.Compilation.Compilable
import ExprMachine.Proofs.MaximalMunch
import ExprMachine.Proofs.Parsing.Recovery
import ExprMachine.Proofs.Machine.Capacity
import ExprMachine.Proofs.Machine.Dispatch
import ExprMachine.Proofs.Machine.Faults
import ExprMachine.Proofs.Documents
import ExprMachine.Proofs.Machine.Release
import ExprMachine.Proofs.Command.Emission
import ExprMachine.Proofs.Session.Places
import ExprMachine.Proofs.Display.ReadsBack
import ExprMachine.Proofs.Writing
import ExprMachine.Proofs.Parsing.Nesting
import ExprMachine.Proofs.Parsing.Progress
import ExprMachine.Proofs.Parsing.Resumption
import ExprMachine.Proofs.Parsing.Slices
import ExprMachine.Proofs.Location.Index
import ExprMachine.Proofs.Diagnostic.Document
import ExprMachine.Proofs.Diagnostic.Carets
import ExprMachine.Proofs.Diagnostic.Colour
import ExprMachine.Proofs.Compilation.Renaming
import ExprMachine.Proofs.Builtin.Arrays
import ExprMachine.Proofs.Builtin.Joining
import ExprMachine.Proofs.SymbolTable.Calls
import ExprMachine.Proofs.Heap
import ExprMachine.Proofs.Machine.Heap
import ExprMachine.Proofs.Session.Identity
