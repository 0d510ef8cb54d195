import TypedIR.Assembly
import TypedIR.Backend
import TypedIR.Buffer.Basic
import TypedIR.Buffer.Files
import TypedIR.Builder.Basic
import TypedIR.Builder.Calls
import TypedIR.Builder.Insert
import TypedIR.Constant.Pool
import TypedIR.Constant.Request
import TypedIR.Context
import TypedIR.Decimal
import TypedIR.Declare
import TypedIR.Diag
import TypedIR.Fingerprint
import TypedIR.Flow.Blocks
import TypedIR.Flow.Dominators
import TypedIR.Flow.Graph
import TypedIR.Func
import TypedIR.Hex
import TypedIR.Instr
import TypedIR.Linkage
import TypedIR.Module
import TypedIR.Names
import TypedIR.Opcode
import TypedIR.Predicate
import TypedIR.Proofs.Assembly.Order
import TypedIR.Proofs.Assembly.Outline
import TypedIR.Proofs.Assembly.Rows
import TypedIR.Proofs.Buffer.Draining
import TypedIR.Proofs.Building.Cursor
import TypedIR.Proofs.Building.Incoming
import TypedIR.Proofs.Building.Outcome
import TypedIR.Proofs.Building.Transaction
import TypedIR.Proofs.Certificate.Changes
import TypedIR.Proofs.Certificate.Code
import TypedIR.Proofs.Certificate.Coverage
import TypedIR.Proofs.Certificate.Encoding
import TypedIR.Proofs.Certificate.Stability
import TypedIR.Proofs.Certificate.Transfer
import TypedIR.Proofs.Certificate.Tweaks
import TypedIR.Proofs.Checks
import TypedIR.Proofs.Constant.Canonical
import TypedIR.Proofs.Constant.Content
import TypedIR.Proofs.Constant.Integers
import TypedIR.Proofs.Constant.Key
import TypedIR.Proofs.Constant.Literal
import TypedIR.Proofs.Constant.Minting
import TypedIR.Proofs.Constant.Requests
import TypedIR.Proofs.Constant.Tables
import TypedIR.Proofs.Declaration.Calls
import TypedIR.Proofs.Declaration.Initial
import TypedIR.Proofs.Declaration.Mirrors
import TypedIR.Proofs.Declaration.Places
import TypedIR.Proofs.Declaration.Symbols
import TypedIR.Proofs.Declaration.Table
import TypedIR.Proofs.Declaration.Writing
import TypedIR.Proofs.Disposal.Calls
import TypedIR.Proofs.Disposal.Operations
import TypedIR.Proofs.Flow.Ancestors
import TypedIR.Proofs.Flow.Blocks
import TypedIR.Proofs.Flow.DepthFirst
import TypedIR.Proofs.Flow.Dominance
import TypedIR.Proofs.Flow.Edges
import TypedIR.Proofs.Flow.Order
import TypedIR.Proofs.Flow.Path
import TypedIR.Proofs.Flow.Refinement
import TypedIR.Proofs.Flow.Settling
import TypedIR.Proofs.Growth.Contexts
import TypedIR.Proofs.Growth.Types
import TypedIR.Proofs.Growth.Worlds
import TypedIR.Proofs.Keyed
import TypedIR.Proofs.Naming.Labels
import TypedIR.Proofs.Naming.Suffixes
import TypedIR.Proofs.Naming.Temps
import TypedIR.Proofs.Naming.Uses
import TypedIR.Proofs.Operation.Basic
import TypedIR.Proofs.Operation.Contexts
import TypedIR.Proofs.Operation.Modules
import TypedIR.Proofs.Operation.Numbers
import TypedIR.Proofs.Operation.Scopes
import TypedIR.Proofs.Registry.Admission
import TypedIR.Proofs.Registry.Asking
import TypedIR.Proofs.Registry.Bodies
import TypedIR.Proofs.Registry.Containment
import TypedIR.Proofs.Registry.Interning
import TypedIR.Proofs.Registry.Invariant
import TypedIR.Proofs.Registry.Key
import TypedIR.Proofs.Registry.Outcomes
import TypedIR.Proofs.Registry.Readable
import TypedIR.Proofs.Registry.Refusal
import TypedIR.Proofs.Registry.Steps
import TypedIR.Proofs.Registry.Tables
import TypedIR.Proofs.Registry.Texts
import TypedIR.Proofs.Registry.Trees
import TypedIR.Proofs.Safety.Access
import TypedIR.Proofs.Safety.Phases
import TypedIR.Proofs.Safety.Rules
import TypedIR.Proofs.Safety.Verification
import TypedIR.Proofs.Soundness.Basic
import TypedIR.Proofs.Soundness.Building
import TypedIR.Proofs.Soundness.Contexts
import TypedIR.Proofs.Soundness.Declarations
import TypedIR.Proofs.Soundness.Findings
import TypedIR.Proofs.Soundness.Functions
import TypedIR.Proofs.Soundness.Incoming
import TypedIR.Proofs.Soundness.Insertion
import TypedIR.Proofs.Soundness.Placement
import TypedIR.Proofs.Soundness.Reachable
import TypedIR.Proofs.Soundness.Records
import TypedIR.Proofs.Typing.Bitcast
import TypedIR.Proofs.Typing.Growth
import TypedIR.Proofs.Typing.Judgment
import TypedIR.Proofs.Typing.Operands
import TypedIR.Proofs.Typing.Owned
import TypedIR.Proofs.Verify.Arrangement
import TypedIR.Proofs.Verify.Definitions
import TypedIR.Proofs.Verify.Initializers
import TypedIR.Proofs.Verify.Phis
import TypedIR.Proofs.Verify.Reads
import TypedIR.Proofs.Verify.Signatures
import TypedIR.Proofs.Verify.Silence
import TypedIR.Proofs.Verify.Switches
import TypedIR.Proofs.Verify.Uses
import TypedIR.Proofs.Verify.Walk
import TypedIR.SourceLoc
import TypedIR.Type.Basic
import TypedIR.Type.Registry
import TypedIR.Type.Request
import TypedIR.Type.Text
import TypedIR.Typing.Cause
import TypedIR.Typing.Operand
import TypedIR.Typing.Rule
import TypedIR.Value
import TypedIR.Verify.Certificate
import TypedIR.Verify.Phase
import TypedIR.Verify.Violation
import TypedIR.World
