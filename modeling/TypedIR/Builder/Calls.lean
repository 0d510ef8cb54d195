import TypedIR.Builder.Insert

namespace TypedIR.BuildM

def binary (op : Opcode) (a b : Value) (name : String) : BuildM Value := do
  if op.category = .intBinary ∨ op.category = .floatBinary then
    insertValue { op, type := a.type, operands := [a, b] } name
  else throw (.notBinary op (← get).builder.loc)

def fneg (a : Value) (name : String) : BuildM Value :=
  insertValue { op := .fneg, type := a.type, operands := [a] } name

def truthType (operand : TypeRef) : BuildM TypeRef := do
  let bit ← request (.int 1)
  match (← get).context.types.lookup operand with
  | some (.vector _ count) => request (.vector bit count)
  | _ => return bit

def compare (op : Opcode) (predicate : Predicate) (a b : Value) (name : String) :
    BuildM Value := do
  live
  let type ← truthType a.type
  insertValue { op, type, predicate, operands := [a, b] } name

def icmp (predicate : Predicate) (a b : Value) (name : String) : BuildM Value :=
  compare .icmp predicate a b name

def fcmp (predicate : Predicate) (a b : Value) (name : String) : BuildM Value :=
  compare .fcmp predicate a b name

def cast (op : Opcode) (a : Value) (type : TypeRef) (name : String) : BuildM Value := do
  live
  if op.category ≠ .cast then throw (.notCast op (← get).builder.loc)
  typeArg .castTarget type
  insertValue { op, type, operands := [a] } name

def alloca (allocated : TypeRef) (count : Option Value) (name : String) : BuildM Value := do
  live
  typeArg .allocated allocated
  let type ← request (.pointer 0)
  insertValue { op := .alloca, type, typeOperand := allocated, operands := count.toList } name

def load (type : TypeRef) (p : Value) (name : String) : BuildM Value := do
  live
  typeArg .loaded type
  insertValue { op := .load, type, operands := [p] } name

def select (condition a b : Value) (name : String) : BuildM Value :=
  insertValue { op := .select, type := a.type, operands := [condition, a, b] } name

def phi (type : TypeRef) (edges : List (Option BlockRef × Value)) (name : String) :
    BuildM Value := do
  live
  typeArg .phi type
  insertValue
    { op := .phi, type, operands := edges.map Prod.snd, incoming := edges.map Prod.fst } name

def insertVoid (i : Instr) : BuildM Unit := do
  let type ← request .void
  insert { i with type }

def store (v p : Value) : BuildM Unit := insertVoid { op := .store, operands := [v, p] }

def br (target : BlockRef) : BuildM Unit := insertVoid { op := .br, targets := [some target] }

def condbr (condition : Value) (yes no : BlockRef) : BuildM Unit :=
  insertVoid { op := .condbr, operands := [condition], targets := [some yes, some no] }

def switch (scrutinee : Value) (default : BlockRef) (cases : List (Value × Option BlockRef)) :
    BuildM Unit :=
  insertVoid {
    op := .switch
    operands := scrutinee :: cases.map Prod.fst
    targets := some default :: cases.map Prod.snd }

def ret (v : Value) : BuildM Unit := insertVoid { op := .ret, operands := [v] }

def retVoid : BuildM Unit := insertVoid { op := .ret }

def unreachable : BuildM Unit := insertVoid { op := .unreachable }

def callIndirect (signature : TypeRef) (callee : Value) (args : List Value) (name : String) :
    BuildM (Option Value) := do
  live
  typeArg .signature signature
  let i : Instr := { op := .call, typeOperand := signature, operands := callee :: args }
  let types := (← get).context.types
  match types.lookup signature with
  | some (.fn result _ _) =>
    if (types.lookup result).any (· ≠ .void) then
      return some (← insertValue { i with type := result } name)
    else
      insert { i with type := result }
      return none
  | _ =>
    insertVoid i
    return none

def call (callee : FuncRef) (args : List Value) (name : String) : BuildM (Option Value) := do
  live
  let s ← get
  let fn := s.world.func callee
  if callee.module ≠ s.builder.module then throw (.foreignCallee fn.name s.builder.loc)
  callIndirect fn.type fn.ref args name

end TypedIR.BuildM

namespace TypedIR

/-- The function with a number, the last one if there are more. -/
def Module.funcOfSerial? (m : Module) (serial : Nat) : Option Nat :=
  (m.funcs.zipIdx.filter (·.1.serial = serial)).getLast?.map (·.2)

def Func.phiSite? (f : Func) (self : FuncRef) (id : Nat) : Option (InstrRef × Instr) :=
  f.blocks.entries.findSome? fun e =>
    (e.2.phis.zipIdx.find? (·.1.result = some id)).map fun x => (⟨⟨self, e.1⟩, x.2⟩, x.1)

namespace BuildState

/-- Finds the phi that a value names, and checks an edge for it. -/
def planIncoming (s : BuildState) (phi : Value) (block : BlockRef) (v : Value) :
    Except BuildError InstrRef := do
  s.checkLive
  let loc := s.builder.loc
  let refuse : BuildError := .notPhi phi.text loc
  let some index := s.module.funcOfSerial? phi.scope | throw refuse
  let f : FuncRef := ⟨s.builder.module, index⟩
  let fn := s.world.func f
  if phi.kind ≠ .result then throw refuse
  let some (site, i) := fn.phiSite? f phi.id | throw refuse
  if s.world.parent? block ≠ some f then throw (.incomingBlock (s.world.label block) loc)
  (checkOperand s.context s.module fn v).mapError .operand
  if v.type ≠ i.type then
    throw (.incomingType (s.context.types.text v.type) (s.context.types.text i.type) loc)
  return site

end BuildState

def BuildM.addIncoming (phi : Value) (block : BlockRef) (v : Value) : BuildM Unit := fun s =>
  match s.planIncoming phi block v with
  | .error e => .error e s
  | .ok site =>
    let world := s.world.modifyInstr site.block site.index fun i =>
      { i with incoming := i.incoming ++ [some block], operands := i.operands ++ [v] }
    .ok () { s with world }

end TypedIR
