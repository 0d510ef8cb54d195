import TypedIR.Flow.Blocks
import TypedIR.Verify.Violation

namespace TypedIR

def findAt {α β : Type} (xs : List α) (find : Nat → α → List β) : List β :=
  xs.zipIdx.flatMap fun x => find x.2 x.1

namespace World

def instrStructure (w : World) (f : FuncRef) (b : Block) (n : Nat) (i : Instr) : List Finding :=
  (if i.op = .phi ∧ (b.instrs.take n).any (·.op ≠ .phi) then [.misplacedPhi] else [])
    ++ (if i.op.isTerminator ∧ n + 1 ≠ b.instrs.length then [.misplacedTerminator] else [])
    ++ (i.targets.filter (!w.isBlockOf f ·)).map (fun _ => .foreignTarget)
    ++ (i.incoming.filter (!w.isBlockOf f ·)).map (fun _ => .foreignIncoming)

def blockStructure (w : World) (f : FuncRef) (b : Block) : List Violation :=
  let fn := w.func f
  match b.instrs.getLast? with
  | none => [.atBlock fn b .emptyBlock]
  | some last =>
    findAt b.instrs (fun n i => (w.instrStructure f b n i).map (.atInstr fn b n))
      ++ if last.op.isTerminator then [] else [.atBlock fn b (.missingTerminator last.op)]

def entryStructure (w : World) (g : FlowGraph BlockRef) (f : FuncRef) : List Violation :=
  match w.blocksOf f with
  | [] => []
  | (ref, entry) :: _ =>
    match g.preds ref with
    | [] => []
    | p :: _ => [.atBlock (w.func f) entry (.entryHasPredecessors (w.label p))]

def funcStructure (w : World) (g : FlowGraph BlockRef) (f : FuncRef) : List Violation :=
  let fn := w.func f
  (if fn.linkage = .imported ∧ !fn.isDeclaration then [.atFunc fn .importWithBody] else [])
    ++ (if fn.linkage = .internal ∧ fn.isDeclaration then [.atFunc fn .missingBody] else [])
    ++ (w.blocksOf f).flatMap (fun e => w.blockStructure f e.2)
    ++ w.entryStructure g f

def checkStructure (w : World) (m : Nat) : List Violation :=
  (w.funcRefs m).flatMap (w.funcStructure (w.flowGraph m))

/-- An instruction of a function: its block and its position there. -/
structure Site where
  ref : BlockRef
  block : Block
  index : Nat
  instr : Instr

def sites (w : World) (f : FuncRef) : List Site :=
  (w.blocksOf f).flatMap fun e => findAt e.2.instrs fun n i => [⟨e.1, e.2, n, i⟩]

def definition? (sites : List Site) (id : Nat) : Option Site :=
  sites.find? (·.instr.result = some id)

def redefinitions (fn : Func) : List Nat → List Site → List Violation
  | _, [] => []
  | seen, s :: rest =>
    match s.instr.result with
    | none => redefinitions fn seen rest
    | some id =>
      if id ∈ seen then
        .atInstr fn s.block s.index (.redefined (fn.tempText id)) :: redefinitions fn seen rest
      else redefinitions fn (id :: seen) rest

/-- Does the definition come before the use on every way to it? A phi uses its operand at the end
of the incoming block; one that is missing or never left demands nothing. -/
def isDominated (d : DomTree BlockRef) (definition use : Site) (k : Nat) : Bool :=
  if use.instr.op = .phi then
    match use.instr.incoming[k]?.join with
    | none => true
    | some p => !d.contains p || d.dominates definition.ref p
  else if definition.ref = use.ref then definition.index < use.index
  else d.dominates definition.ref use.ref

def useFinding? (w : World) (m : Nat) (f : FuncRef) (d : DomTree BlockRef) (all : List Site)
    (use : Site) (k : Nat) (v : Value) : Option Finding :=
  let fn := w.func f
  match checkOperand (w.contextOf m) (w.module m) fn v with
  | .error e => some (.operand e)
  | .ok () =>
    if v.kind ≠ .result then none
    else match definition? all v.id with
      | none => some (.neverDefined (fn.tempText v.id))
      | some definition =>
        if d.contains use.ref ∧ !isDominated d definition use k then
          some (.notDominated (fn.tempText v.id) definition.block.label)
        else none

def funcDominance (w : World) (m : Nat) (g : FlowGraph BlockRef) (f : FuncRef) :
    List Violation :=
  let fn := w.func f
  let d := w.domTree g f
  let all := w.sites f
  redefinitions fn [] all
    ++ all.flatMap fun use => findAt use.instr.operands fun k v =>
      (w.useFinding? m f d all use k v).toList.map (.atInstr fn use.block use.index)

def checkDominance (w : World) (m : Nat) : List Violation :=
  (w.funcRefs m).flatMap (w.funcDominance m (w.flowGraph m))

/-- What is wrong with the `k`-th incoming block of a phi: it is no predecessor, or it came before
with another value. -/
def incomingFinding? (w : World) (preds : List BlockRef) (b : Block) (i : Instr) (k : Nat)
    (block : Option BlockRef) : Option Finding :=
  match block with
  | none => some .nullIncoming
  | some p =>
    if p ∉ preds then some (.strayIncoming (w.label p) b.label)
    else
      let conflicts j := i.incoming[j]? = some block ∧ i.operands[j]? ≠ i.operands[k]?
      if k < i.operands.length ∧ ∃ j ∈ List.range k, conflicts j then
        some (.conflictingIncoming (w.label p))
      else none

def phiFindings (w : World) (preds : List BlockRef) (b : Block) (i : Instr) : List Finding :=
  (preds.filter (fun p => some p ∉ i.incoming)).map (fun p => .missingIncoming (w.label p))
    ++ findAt i.incoming fun k block => (w.incomingFinding? preds b i k block).toList

def checkPhiEdges (w : World) (m : Nat) : List Violation :=
  let g := w.flowGraph m
  (w.funcRefs m).flatMap fun f => (w.blocksOf f).flatMap fun e =>
    findAt e.2.phis fun n i =>
      (w.phiFindings (g.preds e.1) e.2 i).map (.atInstr (w.func f) e.2 n)

def typeFault? (types : TypeRegistry) (t : TypeRef) : Option TypeFault :=
  if types.owns t then none
  else if !t.isValid then some .invalid
  else if t.context ≠ types.context then some (.otherContext t.context)
  else some (.unknown t.id)

def globalTypes (types : TypeRegistry) (g : Global) : List Violation :=
  ((typeFault? types g.type).toList.map (Finding.globalType g.name)
    ++ (g.init.bind (typeFault? types ·.type)).toList.map (Finding.initType g.name)).map .atModule

def instrTypes (types : TypeRegistry) (i : Instr) : List Finding :=
  (typeFault? types i.type).toList.map Finding.resultType
    ++ (if i.op.needsTypeOperand ∨ i.typeOperand.isValid then
        (typeFault? types i.typeOperand).toList.map Finding.typeOperand else [])
    ++ i.operands.flatMap fun v => (typeFault? types v.type).toList.map (.operandType v.text)

def funcTypes (w : World) (types : TypeRegistry) (f : FuncRef) : List Violation :=
  let fn := w.func f
  (typeFault? types fn.type).toList.map (fun e => .atFunc fn (.signatureType e))
    ++ findAt fn.temps (fun id t =>
      (typeFault? types t.type).toList.map fun e => .atFunc fn (.tempType id e))
    ++ (w.sites f).flatMap fun s =>
      (instrTypes types s.instr).map (.atInstr fn s.block s.index)

def checkOwnership (w : World) (m : Nat) : List Violation :=
  let types := (w.contextOf m).types
  (w.module m).globals.flatMap (globalTypes types)
    ++ (w.funcRefs m).flatMap (w.funcTypes types)

def checkTyping (w : World) (m : Nat) : List Violation :=
  (w.funcRefs m).flatMap fun f => (w.sites f).flatMap fun s =>
    match w.checkInstr m f s.instr with
    | .ok () => []
    | .error e => [.atInstr (w.func f) s.block s.index (.illTyped e)]

end World

inductive Phase
  | shape | dominance | phi | ownership | typing
  deriving DecidableEq

namespace Phase

def all : List Phase := [shape, dominance, phi, ownership, typing]

def run (p : Phase) (w : World) (m : Nat) : List Violation :=
  match p with
  | shape => w.checkStructure m
  | dominance => w.checkDominance m
  | phi => w.checkPhiEdges m
  | ownership => w.checkOwnership m
  | typing => w.checkTyping m

end Phase

end TypedIR
