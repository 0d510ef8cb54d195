import TypedIR.Typing.Rule

namespace TypedIR

inductive VerifyCode
  | unknown | contextDisposed | emptyBlock | missingTerminator | misplacedTerminator
  | misplacedPhi | entryHasPredecessors | foreignBlock | importWithBody | missingBody
  | undefinedValue | useNotDominated | phiPredecessorMismatch | foreignType | illTyped
  deriving DecidableEq, Inhabited

namespace VerifyCode

def declared : List VerifyCode :=
  [unknown, contextDisposed, emptyBlock, missingTerminator, misplacedTerminator, misplacedPhi,
   entryHasPredecessors, foreignBlock, importWithBody, missingBody, undefinedValue,
   useNotDominated, phiPredecessorMismatch, foreignType, illTyped]

def ofCode (n : Nat) : VerifyCode := declared.getD n unknown

def spelling : VerifyCode → String
  | unknown => ""
  | contextDisposed => "verify.context.disposed"
  | emptyBlock => "verify.block.empty"
  | missingTerminator => "verify.block.missing_terminator"
  | misplacedTerminator => "verify.block.misplaced_terminator"
  | misplacedPhi => "verify.block.misplaced_phi"
  | entryHasPredecessors => "verify.cfg.entry_predecessors"
  | foreignBlock => "verify.cfg.foreign_block"
  | importWithBody => "verify.linkage.import_with_body"
  | missingBody => "verify.linkage.missing_body"
  | undefinedValue => "verify.ssa.undefined"
  | useNotDominated => "verify.ssa.not_dominated"
  | phiPredecessorMismatch => "verify.phi.predecessors"
  | foreignType => "verify.type.foreign"
  | illTyped => "verify.type.ill_typed"

def diag (code : VerifyCode) (severity : Severity) (loc : SourceLoc) (message : String) : Diag :=
  let message :=
    if code.spelling.isEmpty then message
    else if message.isEmpty then code.spelling
    else s!"{code.spelling}: {message}"
  ⟨.verificationFailure, message, loc, severity⟩

end VerifyCode

inductive TypeFault
  | invalid
  | otherContext (context : Nat)
  | unknown (id : Nat)
  deriving DecidableEq

def TypeFault.message : TypeFault → String
  | invalid => "invalid type handle"
  | otherContext context => s!"type from context {context}"
  | unknown id => s!"unknown type #{id}"

inductive Finding
  | contextDisposed (module : String)
  | emptyBlock
  | missingTerminator (last : Opcode)
  | misplacedTerminator
  | misplacedPhi
  | entryHasPredecessors (label : String)
  | foreignTarget
  | foreignIncoming
  | importWithBody
  | missingBody
  | redefined (temp : String)
  | operand (error : OperandError)
  | neverDefined (temp : String)
  | notDominated (temp label : String)
  | missingIncoming (label : String)
  | strayIncoming (label block : String)
  | conflictingIncoming (label : String)
  | nullIncoming
  | globalType (name : String) (fault : TypeFault)
  | initType (name : String) (fault : TypeFault)
  | signatureType (fault : TypeFault)
  | tempType (id : Nat) (fault : TypeFault)
  | resultType (fault : TypeFault)
  | typeOperand (fault : TypeFault)
  | operandType (value : String) (fault : TypeFault)
  | illTyped (error : TypingError)
  deriving DecidableEq

namespace Finding

def code : Finding → VerifyCode
  | contextDisposed _ => .contextDisposed
  | emptyBlock => .emptyBlock
  | missingTerminator _ => .missingTerminator
  | misplacedTerminator => .misplacedTerminator
  | misplacedPhi => .misplacedPhi
  | entryHasPredecessors _ => .entryHasPredecessors
  | foreignTarget | foreignIncoming => .foreignBlock
  | importWithBody => .importWithBody
  | missingBody => .missingBody
  | redefined _ | operand _ | neverDefined _ => .undefinedValue
  | notDominated .. => .useNotDominated
  | missingIncoming _ | strayIncoming .. | conflictingIncoming _ | nullIncoming =>
    .phiPredecessorMismatch
  | globalType .. | initType .. | signatureType _ | tempType .. | resultType _ | typeOperand _
  | operandType .. => .foreignType
  | illTyped _ => .illTyped

def message : Finding → String
  | contextDisposed module => s!"module '{module}' used after its context was disposed"
  | emptyBlock => "block has no instructions"
  | missingTerminator last => s!"block ends with '{last.mnemonic}' instead of a terminator"
  | misplacedTerminator => "terminator must be the last instruction"
  | misplacedPhi => "phi must precede all other instructions"
  | entryHasPredecessors label => s!"entry block is branched to from '{label}'"
  | foreignTarget => "successor is not a block of this function"
  | foreignIncoming => "incoming block is not a block of this function"
  | importWithBody => "imported function must not have a body"
  | missingBody => "internal function needs a body"
  | redefined temp => s!"{temp} is defined more than once"
  | operand e => e.message
  | neverDefined temp => s!"{temp} is never defined"
  | notDominated temp label => s!"use of {temp} is not dominated by its definition in '{label}'"
  | missingIncoming label => s!"no incoming value for predecessor '{label}'"
  | strayIncoming label block => s!"incoming block '{label}' is not a predecessor of '{block}'"
  | conflictingIncoming label => s!"conflicting incoming values for '{label}'"
  | nullIncoming => "incoming block is missing"
  | globalType name fault => s!"@{name}: global type is {fault.message}"
  | initType name fault => s!"@{name}: initializer type is {fault.message}"
  | signatureType fault => s!"signature is {fault.message}"
  | tempType id fault => s!"temporary %{id} has {fault.message}"
  | resultType fault => s!"result {fault.message}"
  | typeOperand fault => s!"type operand is {fault.message}"
  | operandType value fault => s!"operand {value} has {fault.message}"
  | illTyped e => e.message

end Finding

/-- Where something was found. An instruction is shown by its position and a snippet of it; the
snippet is missing if there is no such instruction. -/
inductive Place
  | module
  | func (name : String)
  | block (func label : String)
  | instr (func label : String) (index : Nat) (snippet : Option String)
  deriving DecidableEq

namespace Place

def text : Place → String
  | module => ""
  | func fn => s!"@{fn}"
  | block fn label => s!"@{fn}:{label}"
  | instr fn label index none => s!"@{fn}:{label}#{index}"
  | instr fn label index (some snippet) => s!"@{fn}:{label}#{index} ({snippet})"

def describe (p : Place) (message : String) : String :=
  match p with
  | .module => message
  | p => if message.isEmpty then p.text else s!"{p.text}: {message}"

def funcName : Place → String
  | module => ""
  | func fn | block fn _ | instr fn .. => fn

def blockLabel : Place → String
  | module | func _ => ""
  | block _ label | instr _ label .. => label

def index? : Place → Option Nat
  | instr _ _ index _ => some index
  | _ => none

end Place

def Func.snippet (f : Func) (i : Instr) : String :=
  match i.result with
  | none => i.op.mnemonic
  | some id => s!"{f.tempText id} = {i.op.mnemonic}"

def Func.instrPlace (f : Func) (b : Block) (index : Nat) : Place :=
  .instr f.name b.label index (b.instrs[index]?.map f.snippet)

structure Violation where
  place : Place
  finding : Finding
  loc : SourceLoc := {}
  deriving DecidableEq

namespace Violation

def code (v : Violation) : VerifyCode := v.finding.code

def message (v : Violation) : String := v.place.describe v.finding.message

def diag (v : Violation) : Diag := v.code.diag .error v.loc v.message

def atModule (finding : Finding) : Violation := ⟨.module, finding, {}⟩

def atFunc (f : Func) (finding : Finding) : Violation := ⟨.func f.name, finding, {}⟩

def atBlock (f : Func) (b : Block) (finding : Finding) : Violation :=
  ⟨.block f.name b.label, finding, {}⟩

def atInstr (f : Func) (b : Block) (index : Nat) (finding : Finding) : Violation :=
  ⟨f.instrPlace b index, finding, (b.instrs[index]?.map (·.loc)).getD {}⟩

end Violation

end TypedIR
