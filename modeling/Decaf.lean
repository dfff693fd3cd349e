import Decaf.Tree.Builder
import Decaf.Compiler
import Decaf.CommandLine
import Decaf.Main
import Decaf.Proofs.Pool.Client
import Decaf.Proofs.Pool.Evictions
import Decaf.Proofs.Members.Dispatch
import Decaf.Proofs.Tree.Decode
import Decaf.Proofs.Members.Declared
import Decaf.Proofs.Members.Slots
import Decaf.Proofs.Registry.Lookup
import Decaf.Proofs.Resolution.Methods
import Decaf.Proofs.Typing.Methods
import Decaf.Proofs.Code.Layout
import Decaf.Proofs.Code.Writing
import Decaf.Proofs.Code.ShortCircuit
import Decaf.Proofs.Typing.Decision
import Decaf.Proofs.Code.Calculating
import Decaf.Proofs.Code.Calls
import Decaf.Proofs.Code.Expressions
import Decaf.Proofs.Checked
import Decaf.Proofs.Code.Methods
import Decaf.Proofs.Compiler
import Decaf.Proofs.Control.Bodies
import Decaf.Proofs.Evaluation.Agreement
import Decaf.Proofs.Evaluation.Correctness
import Decaf.Proofs.Code.Addresses
import Decaf.Proofs.Hierarchy.Sound
import Decaf.Proofs.Members.Accepted
import Decaf.Proofs.Resolution.Scoped
import Decaf.Proofs.Control.Completion
import Decaf.Proofs.Control.Initialization
import Decaf.Proofs.Control.Executions
import Decaf.Proofs.Registers.Methods
import Decaf.Proofs.Listing.Bodies
import Decaf.Proofs.Typing.Targets
import Decaf.Proofs.Listing.Declarations
import Decaf.Proofs.Listing.Frames
import Decaf.Proofs.Listing.Handovers
import Decaf.Proofs.Listing.Lines
import Decaf.Proofs.Tree.Forest
import Decaf.Proofs.Tree.Encoded
import Decaf.Proofs.Events.Methods
import Decaf.Proofs.Reordering.Compilation
import Decaf.Proofs.Spilling.Methods
import Decaf.Proofs.Renaming.Compilation
import Decaf.Proofs.Inheritance.DepthFirst
import Decaf.Proofs.Registry.Assignability
import Decaf.Proofs.Registry.Logs
import Decaf.Proofs.Code.ObjectInit
