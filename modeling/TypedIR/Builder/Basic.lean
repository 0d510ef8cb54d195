import TypedIR.Typing.Rule

/-! Builders. A builder adds instructions to the blocks of one module, at a cursor. Each call either
does all of its work or leaves functions and builder as they were; only types that it asked for may
remain. -/

namespace TypedIR

/-- Instructions go before the one at `before`, or at the end of the block. -/
structure Cursor where
  block : Option BlockRef := none
  before : Option Nat := none
  deriving DecidableEq, Inhabited

structure InstrRef where
  block : BlockRef
  index : Nat
  deriving DecidableEq, Inhabited

/-- `loc` is given to the instructions that are built; `last` is the one built last. -/
structure Builder where
  module : Nat
  cursor : Cursor := {}
  loc : SourceLoc := {}
  last : Option InstrRef := none
  deriving DecidableEq, Inhabited

inductive ArgRole
  | castTarget | allocated | loaded | phi | signature
  deriving DecidableEq

def ArgRole.spelling : ArgRole → String
  | castTarget => "cast destination type"
  | allocated => "allocated type"
  | loaded => "loaded type"
  | phi => "phi type"
  | signature => "call signature"

inductive BuildError
  | disposed (module : String)
  | type (error : TypeError)
  | foreignArg (role : ArgRole)
  | invalidArg (role : ArgRole)
  | foreignFunc (name : String)
  | importedFunc (name : String)
  | foreignBlock (label module : String)
  | foreignRef (module : String)
  | refPastEnd (index : Nat) (label : String)
  | noCursor
  | foreignCursor (label module : String)
  | cursorPastEnd (index : Nat) (label : String)
  | terminated (op : Opcode) (label : String) (last : Opcode)
  | terminatorInside (op : Opcode) (label : String)
  | phiBelow (label : String)
  | abovePhis (op : Opcode) (label : String)
  | operand (error : OperandError)
  | typing (error : TypingError)
  | notBinary (op : Opcode) (loc : SourceLoc)
  | notCast (op : Opcode) (loc : SourceLoc)
  | foreignCallee (name : String) (loc : SourceLoc)
  | notPhi (value : String) (loc : SourceLoc)
  | incomingBlock (label : String) (loc : SourceLoc)
  | incomingType (got expected : String) (loc : SourceLoc)
  deriving DecidableEq

namespace BuildError

def code : BuildError → ErrorCode
  | disposed _ => .useAfterDispose
  | type e => e.code
  | foreignArg _ | invalidArg _ => .invalidTypeSpec
  | foreignFunc _ | importedFunc _ | foreignBlock .. | foreignRef _ | refPastEnd .. | noCursor
  | foreignCursor .. | cursorPastEnd .. | terminated .. | terminatorInside .. | phiBelow _
  | abovePhis .. => .invalidInsertionPoint
  | operand _ | typing _ | notBinary .. | notCast .. | foreignCallee .. | notPhi ..
  | incomingBlock .. | incomingType .. => .illTypedOperation

def message : BuildError → String
  | disposed name => s!"module '{name}' used after its context was disposed"
  | type e => e.message
  | foreignArg role => s!"{role.spelling} belongs to a different context"
  | invalidArg role => s!"{role.spelling} is not a valid type"
  | foreignFunc name => s!"function @{name} belongs to another module"
  | importedFunc name => s!"imported function @{name} cannot have a body"
  | foreignBlock label module => s!"block '{label}' does not belong to module '{module}'"
  | foreignRef module => s!"instruction reference does not belong to module '{module}'"
  | refPastEnd index label => s!"instruction reference {index} is past the end of '{label}'"
  | noCursor => "builder has no insertion point"
  | foreignCursor label module =>
    s!"insertion block '{label}' does not belong to module '{module}'"
  | cursorPastEnd index label => s!"insertion index {index} is past the end of '{label}'"
  | terminated op label last =>
    s!"{op.mnemonic}: block '{label}' already ends with '{last.mnemonic}'"
  | terminatorInside op label =>
    s!"{op.mnemonic}: terminator must be placed at the end of '{label}'"
  | phiBelow label => s!"phi: must be grouped at the head of '{label}'"
  | abovePhis op label => s!"{op.mnemonic}: cannot be placed before the phis of '{label}'"
  | operand e => e.message
  | typing e => e.message
  | notBinary op _ => s!"{op.mnemonic} is not a binary arithmetic opcode"
  | notCast op _ => s!"{op.mnemonic} is not a cast opcode"
  | foreignCallee name _ => s!"call: callee @{name} belongs to another module"
  | notPhi value _ => s!"phi: {value} is not a phi of this module"
  | incomingBlock label _ => s!"phi: incoming block '{label}' belongs to another function"
  | incomingType got expected _ => s!"phi: incoming value has type {got}, expected {expected}"

def loc : BuildError → SourceLoc
  | typing e => e.loc
  | notBinary _ l | notCast _ l | foreignCallee _ l | notPhi _ l | incomingBlock _ l
  | incomingType _ _ l => l
  | _ => {}

def diag (e : BuildError) : Diag := ⟨e.code, e.message, e.loc, .error⟩

end BuildError

structure BuildState where
  world : World
  builder : Builder
  deriving Inhabited

abbrev BuildM := EStateM BuildError BuildState

namespace BuildState

def module (s : BuildState) : Module := s.world.module s.builder.module

def context (s : BuildState) : Context := s.world.contextOf s.builder.module

def checkLive (s : BuildState) : Except BuildError Unit :=
  if s.context.isDisposed then .error (.disposed s.module.name) else .ok ()

def owned? (s : BuildState) (b : BlockRef) : Option (Block × FuncRef) :=
  match s.world.block? b with
  | none => none
  | some x => (x.parent.filter (·.module = s.builder.module)).map (x, ·)

end BuildState

namespace BuildM

def check {α : Type} (f : BuildState → Except BuildError α) : BuildM α := fun s =>
  match f s with
  | .error e => .error e s
  | .ok a => .ok a s

def request {α : Type} (q : TypeRequest α) : BuildM α := fun s =>
  match s.world.requestType s.module.context q with
  | (.error e, world) => .error (.type e) { s with world }
  | (.ok a, world) => .ok a { s with world }

def live : BuildM Unit := check BuildState.checkLive

def typeArg (role : ArgRole) (t : TypeRef) : BuildM Unit := check fun s =>
  if s.context.types.owns t then .ok ()
  else .error (if t.isValid ∧ t.context ≠ s.context.id then .foreignArg role else .invalidArg role)

def appendBlock (f : FuncRef) (label : String) : BuildM BlockRef := do
  live
  check fun s =>
    let fn := s.world.func f
    if f.module ≠ s.builder.module then .error (.foreignFunc fn.name)
    else if fn.linkage = .imported then .error (.importedFunc fn.name)
    else .ok ()
  modifyGet fun s =>
    let (b, world) := s.world.addBlock f label
    (b, { s with world })

def setCursor (c : Cursor) : BuildM Unit :=
  modify fun s => { s with builder := { s.builder with cursor := c } }

def setLoc (loc : SourceLoc) : BuildM Unit :=
  modify fun s => { s with builder := { s.builder with loc } }

def atEnd (b : BlockRef) : BuildM Unit := do
  check fun s =>
    if (s.owned? b).isSome then .ok () else .error (.foreignBlock (s.world.label b) s.module.name)
  setCursor ⟨some b, none⟩

def before (b : Option BlockRef) (index : Nat) : BuildM Unit := do
  let b ← check fun s =>
    match b.bind fun b => (s.owned? b).map (b, ·.1) with
    | none => .error (.foreignRef s.module.name)
    | some (b, block) =>
      if index < block.instrs.length then .ok b else .error (.refPastEnd index block.label)
  setCursor ⟨some b, some index⟩

end BuildM

end TypedIR
