import TypedIR.Instr
import TypedIR.Diag

namespace TypedIR

inductive TypingCause
  | operandCount (min : Nat) (max : Option Nat) (got : Nat)
  | successorCount (expected got : Nat)
  | resultNever
  | resultMissing
  | incomingOutsidePhi
  | foreignTarget (func : String)
  | foreignIncoming (func : String)
  | resultType (got expected : String)
  | operandsDiffer (left right : String)
  | needsInt (got : String)
  | needsFloat (got : String)
  | needsIntOrPointer (got : String)
  | intPredicate (spelling : String)
  | floatPredicate (spelling : String)
  | comparisonResult (vector : Bool) (got : String)
  | castUnknown
  | cast (source target : String)
  | allocaUnsized (got : String)
  | allocaResult (got : String)
  | allocaCount (got : String)
  | address (got : String)
  | loadUnsized (got : String)
  | storeUnsized (got : String)
  | callee (got : String)
  | signature (got : String)
  | signatureDiffers (got func expected : String)
  | argumentCount (params : Nat) (variadic : Bool) (got : Nat)
  | argumentType (position : Nat) (got expected : String)
  | argumentUnsized (position : Nat) (got : String)
  | voidCallResult
  | callResultMissing
  | condition (got : String)
  | conditionLanes
  | selectUnsized (got : String)
  | phiUnsized (got : String)
  | phiPairs
  | phiValue (position : Nat) (got expected : String)
  | scrutinee (got : String)
  | switchTargets
  | caseLiteral (position : Nat)
  | caseType (position : Nat) (got expected : String)
  | caseDuplicate (literal : String)
  | returnsVoid (func : String)
  | returnMissing (func expected : String)
  | returnType (got func expected : String)
  /-- The rule reads a part that the instruction does not have. The shape of an instruction is
  checked first, and excludes this. -/
  | unreadable
  deriving DecidableEq

namespace TypingCause

def countText (min : Nat) (max : Option Nat) : String :=
  match max with
  | none => s!"{min} or more"
  | some max => if max = min then s!"{min}" else s!"{min} to {max}"

def message : TypingCause → String
  | operandCount min max got => s!"expects {countText min max} operands, got {got}"
  | successorCount expected got => s!"expects {expected} successors, got {got}"
  | resultNever => "does not produce a result"
  | resultMissing => "must produce a result"
  | incomingOutsidePhi => "only phi carries incoming blocks"
  | foreignTarget func => s!"branch target is not a block of @{func}"
  | foreignIncoming func => s!"incoming block is not a block of @{func}"
  | resultType got expected => s!"result type {got} does not match {expected}"
  | operandsDiffer left right => s!"operand types differ ({left} vs {right})"
  | needsInt got => s!"requires integer operands, got {got}"
  | needsFloat got => s!"requires floating-point operands, got {got}"
  | needsIntOrPointer got => s!"requires integer or pointer operands, got {got}"
  | intPredicate spelling => s!"invalid integer predicate '{spelling}'"
  | floatPredicate spelling => s!"invalid float predicate '{spelling}'"
  | comparisonResult true got => s!"result must be a vector of i1, got {got}"
  | comparisonResult false got => s!"result must be i1, got {got}"
  | castUnknown => "cast between unknown types"
  | cast source target => s!"cannot convert {source} to {target}"
  | allocaUnsized got => s!"cannot allocate unsized type {got}"
  | allocaResult got => s!"result must be a pointer, got {got}"
  | allocaCount got => s!"element count must be an integer, got {got}"
  | address got => s!"address must be a pointer, got {got}"
  | loadUnsized got => s!"cannot load unsized type {got}"
  | storeUnsized got => s!"cannot store unsized type {got}"
  | callee got => s!"callee must be a pointer, got {got}"
  | signature got => s!"call requires a function signature, got {got}"
  | signatureDiffers got func expected =>
    s!"signature {got} does not match @{func} : {expected}"
  | argumentCount params true got => s!"expects {params} or more arguments, got {got}"
  | argumentCount params false got => s!"expects {params} arguments, got {got}"
  | argumentType position got expected =>
    s!"argument {position} has type {got}, expected {expected}"
  | argumentUnsized position got => s!"variadic argument {position} has unsized type {got}"
  | voidCallResult => "call to a void function cannot produce a result"
  | callResultMissing => "call to a non-void function must produce a result"
  | condition got => s!"condition must be i1, got {got}"
  | conditionLanes => "condition lanes do not match the selected values"
  | selectUnsized got => s!"cannot select values of unsized type {got}"
  | phiUnsized got => s!"phi requires a sized type, got {got}"
  | phiPairs => "each incoming value needs exactly one block"
  | phiValue position got expected =>
    s!"incoming value {position} has type {got}, expected {expected}"
  | scrutinee got => s!"scrutinee must be an integer, got {got}"
  | switchTargets => "needs a default target plus one target per case"
  | caseLiteral position => s!"case {position} must be an integer literal"
  | caseType position got expected => s!"case {position} has type {got}, expected {expected}"
  | caseDuplicate literal => s!"duplicate case value {literal}"
  | returnsVoid func => s!"@{func} returns void"
  | returnMissing func expected => s!"@{func} must return {expected}"
  | returnType got func expected => s!"returns {got} but @{func} returns {expected}"
  | unreadable => "malformed instruction"

end TypingCause

structure TypingError where
  op : Opcode
  cause : TypingCause
  loc : SourceLoc
  deriving DecidableEq

namespace TypingError

def message (e : TypingError) : String := s!"{e.op.mnemonic}: {e.cause.message}"

def diag (e : TypingError) : Diag := ⟨.illTypedOperation, e.message, e.loc, .error⟩

end TypingError

end TypedIR
