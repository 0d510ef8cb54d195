import TypedIR.Builder.Basic

namespace TypedIR

namespace BuildState

def target (s : BuildState) : Except BuildError (BlockRef × Block × FuncRef × Nat) := do
  let some b := s.builder.cursor.block | throw .noCursor
  let some (block, f) := s.owned? b
    | throw (.foreignCursor (s.world.label b) s.module.name)
  match s.builder.cursor.before with
  | none => return (b, block, f, block.instrs.length)
  | some n =>
    if block.instrs.length < n then throw (.cursorPastEnd n block.label)
    return (b, block, f, n)

end BuildState

def Block.checkPlacement (b : Block) (op : Opcode) (pos : Nat) : Except BuildError Unit := do
  if pos = b.instrs.length then
    if let some last := b.terminator? then throw (.terminated op b.label last.op)
  else if op.isTerminator then throw (.terminatorInside op b.label)
  if op = .phi ∧ b.phis.length < pos then throw (.phiBelow b.label)
  if op ≠ .phi ∧ pos < b.phis.length then throw (.abovePhis op b.label)

structure Insertion where
  block : BlockRef
  func : FuncRef
  pos : Nat
  instr : Instr

namespace BuildState

/-- Checks an instruction for the cursor. If it gives a value, its result is the temporary that
comes next in the function. -/
def plan (s : BuildState) (i : Instr) (givesValue : Bool) : Except BuildError Insertion := do
  s.checkLive
  let (b, block, f, pos) ← s.target
  let fn := s.world.func f
  i.operands.forM fun v => (checkOperand s.context s.module fn v).mapError .operand
  let result := if givesValue then some fn.temps.length else i.result
  let i := { i with result, loc := s.builder.loc }
  (s.world.checkInstr s.builder.module f i).mapError .typing
  block.checkPlacement i.op pos
  return ⟨b, f, pos, i⟩

/-- Carries an insertion out. A cursor before an instruction stays before that instruction. -/
def commit (s : BuildState) (x : Insertion) (givesValue : Bool) (name : String) : BuildState :=
  let world := if givesValue then (s.world.newTemp x.func x.instr.type name).2 else s.world
  let world := world.modifyBlock x.block (·.insert x.pos x.instr)
  let cursor := s.builder.cursor
  let before := cursor.before.map fun _ => x.pos + 1
  { world
    builder := { s.builder with cursor := { cursor with before }, last := some ⟨x.block, x.pos⟩ } }

end BuildState

namespace BuildM

def valueOf (s : BuildState) (x : Insertion) : Option Value :=
  x.instr.result.bind (s.world.func x.func).tempValue?

def insert (i : Instr) : BuildM Unit := fun s =>
  match s.plan i false with
  | .error e => .error e s
  | .ok x => .ok () (s.commit x false "")

def insertValue (i : Instr) (name : String) : BuildM Value := fun s =>
  match s.plan i true with
  | .error e => .error e s
  | .ok x =>
    let s' := s.commit x true name
    .ok ((valueOf s' x).getD {}) s'

end BuildM

end TypedIR
