import TypedIR.Typing.Cause
import TypedIR.Typing.Operand

namespace TypedIR

namespace TypeRegistry

def scalar? (r : TypeRegistry) (t : TypeRef) : Option TypeDesc :=
  match r.lookup t with
  | some (.vector elem _) => r.lookup elem
  | d => d

def lanes (r : TypeRegistry) (t : TypeRef) : UInt64 :=
  match r.lookup t with
  | some (.vector _ count) => count
  | _ => 0

/-- The bits of a number or a vector of numbers, counted in a 64-bit word; zero for everything
else. -/
def bitWidth (r : TypeRegistry) (t : TypeRef) : UInt64 :=
  let scalar : Option TypeDesc → UInt64
    | some (.int bits) => bits.toUInt64
    | some (.float kind) => kind.bits.toUInt64
    | _ => 0
  match r.lookup t with
  | some (.vector elem count) => count * scalar (r.lookup elem)
  | d => scalar d

def isIntRef (r : TypeRegistry) (t : TypeRef) : Bool := (r.lookup t).any TypeDesc.isInt

def isPointerRef (r : TypeRegistry) (t : TypeRef) : Bool := (r.lookup t).any TypeDesc.isPointer

end TypeRegistry

abbrev Rule := Except TypingCause Unit

namespace Instr

def checkSuccessors (i : Instr) : Rule :=
  match i.op.successors? with
  | some s =>
    if i.targets.length = s then pure () else throw (.successorCount s i.targets.length)
  | none => pure ()

def checkArity (i : Instr) : Rule :=
  match i.op.resultArity, i.result with
  | .never, some _ => throw .resultNever
  | .always, none => throw .resultMissing
  | _, _ => pure ()

def checkShape (i : Instr) : Rule := do
  let n := i.operands.length
  if n < i.op.minOperands ∨ i.op.maxOperands?.any (· < n) then
    throw (.operandCount i.op.minOperands i.op.maxOperands? n)
  i.checkSuccessors
  i.checkArity
  if i.op ≠ .phi ∧ i.incoming ≠ [] then throw .incomingOutsidePhi

def checkBlocks (i : Instr) (func : String) (isBlock : Option BlockRef → Bool) : Rule := do
  unless i.targets.all isBlock do throw (.foreignTarget func)
  unless i.incoming.all isBlock do throw (.foreignIncoming func)

section Rules

variable (types : TypeRegistry) (i : Instr)

def expectResult (t : TypeRef) : Rule :=
  if i.type = t then .ok () else .error (.resultType (types.text i.type) (types.text t))

def checkIntBinary : Rule := do
  let a :: b :: _ := i.operands | throw .unreadable
  if a.type ≠ b.type then throw (.operandsDiffer (types.text a.type) (types.text b.type))
  unless (types.scalar? a.type).any TypeDesc.isInt do throw (.needsInt (types.text a.type))
  i.expectResult types a.type

def checkFloatArith : Rule := do
  let a :: rest := i.operands | throw .unreadable
  if let [b] := rest then
    if a.type ≠ b.type then throw (.operandsDiffer (types.text a.type) (types.text b.type))
  unless (types.scalar? a.type).any TypeDesc.isFloat do throw (.needsFloat (types.text a.type))
  i.expectResult types a.type

def checkCompare : Rule := do
  let a :: b :: _ := i.operands | throw .unreadable
  if a.type ≠ b.type then throw (.operandsDiffer (types.text a.type) (types.text b.type))
  let scalar := types.scalar? a.type
  if i.op = .icmp then
    unless scalar.any (fun d => d.isInt || d.isPointer) do
      throw (.needsIntOrPointer (types.text a.type))
    unless i.predicate.isInt do throw (.intPredicate i.predicate.spelling)
  else
    unless scalar.any TypeDesc.isFloat do throw (.needsFloat (types.text a.type))
    unless i.predicate.isFloat do throw (.floatPredicate i.predicate.spelling)
  let n := types.lanes a.type
  unless types.scalar? i.type = some (.int 1) ∧ types.lanes i.type = n do
    throw (.comparisonResult (n != 0) (types.text i.type))

/-- The casts between two types. Only a bitcast looks at their widths, and only when neither is a
pointer: then both count their bits and the counts agree. -/
def castAllowed (op : Opcode) (source target : TypeDesc) (sourceBits targetBits : UInt64) : Bool :=
  match op, source, target with
  | .trunc, .int a, .int b => b < a
  | .zext, .int a, .int b | .sext, .int a, .int b => a < b
  | .fptrunc, .float a, .float b => b.bits < a.bits
  | .fpext, .float a, .float b => a.bits < b.bits
  | .fptosi, .float _, .int _ | .fptoui, .float _, .int _ => true
  | .sitofp, .int _, .float _ | .uitofp, .int _, .float _ => true
  | .ptrtoint, .pointer _, .int _ => true
  | .inttoptr, .int _, .pointer _ => true
  | .bitcast, .pointer a, .pointer b => a = b
  | .bitcast, .pointer _, _ | .bitcast, _, .pointer _ => false
  | .bitcast, _, _ => sourceBits ≠ 0 ∧ sourceBits = targetBits
  | .addrspacecast, .pointer a, .pointer b => a ≠ b
  | _, _, _ => false

def checkCast : Rule := do
  let a :: _ := i.operands | throw .unreadable
  match types.lookup a.type, types.lookup i.type with
  | some source, some target =>
    let sourceBits := types.bitWidth a.type
    let targetBits := types.bitWidth i.type
    unless castAllowed i.op source target sourceBits targetBits do
      throw (.cast (types.text a.type) (types.text i.type))
  | _, _ => throw .castUnknown

def checkAlloca : Rule := do
  unless types.isSized i.typeOperand do throw (.allocaUnsized (types.text i.typeOperand))
  unless types.isPointerRef i.type do throw (.allocaResult (types.text i.type))
  if let count :: _ := i.operands then
    unless types.isIntRef count.type do throw (.allocaCount (types.text count.type))

def checkLoad : Rule := do
  let p :: _ := i.operands | throw .unreadable
  unless types.isPointerRef p.type do throw (.address (types.text p.type))
  unless types.isSized i.type do throw (.loadUnsized (types.text i.type))

def checkStore : Rule := do
  let v :: p :: _ := i.operands | throw .unreadable
  unless types.isPointerRef p.type do throw (.address (types.text p.type))
  unless types.isSized v.type do throw (.storeUnsized (types.text v.type))

def checkMemory : Rule :=
  match i.op with
  | .alloca => i.checkAlloca types
  | .load => i.checkLoad types
  | .store => i.checkStore types
  | _ => throw .unreadable

def checkArguments : Nat → List TypeRef → List Value → Rule
  | _, _, [] => pure ()
  | n, p :: params, a :: args => do
    if a.type ≠ p then throw (.argumentType n (types.text a.type) (types.text p))
    checkArguments (n + 1) params args
  | n, [], a :: args => do
    unless types.isSized a.type do throw (.argumentUnsized n (types.text a.type))
    checkArguments (n + 1) [] args

def checkCallee (m : Module) (callee : Value) : Rule :=
  if callee.kind = .global ∧ callee.isFunction then
    match m.funcs[callee.id]? with
    | none => pure ()
    | some target =>
      if target.type = i.typeOperand then pure ()
      else throw (.signatureDiffers (types.text i.typeOperand) target.name (types.text target.type))
  else pure ()

def checkCallResult (result : TypeRef) : Rule :=
  match types.lookup result, i.result with
  | none, _ => throw .unreadable
  | some .void, some _ => throw .voidCallResult
  | some .void, none => pure ()
  | some _, none => throw .callResultMissing
  | some _, some _ => i.expectResult types result

def checkCall (m : Module) : Rule := do
  let callee :: args := i.operands | throw .unreadable
  unless types.isPointerRef callee.type do throw (.callee (types.text callee.type))
  let some (.fn result params variadic) := types.lookup i.typeOperand
    | throw (.signature (types.text i.typeOperand))
  i.checkCallee types m callee
  if args.length < params.length ∨ (params.length < args.length ∧ !variadic) then
    throw (.argumentCount params.length variadic args.length)
  checkArguments types 0 params args
  i.checkCallResult types result

def checkSelect : Rule := do
  let c :: a :: b :: _ := i.operands | throw .unreadable
  unless types.scalar? c.type = some (.int 1) do throw (.condition (types.text c.type))
  if types.lanes c.type ≠ 0 ∧ types.lanes c.type ≠ types.lanes a.type then throw .conditionLanes
  if a.type ≠ b.type then throw (.operandsDiffer (types.text a.type) (types.text b.type))
  unless types.isSized a.type do throw (.selectUnsized (types.text a.type))
  i.expectResult types a.type

def checkIncoming (t : TypeRef) : Nat → List Value → Rule
  | _, [] => pure ()
  | n, v :: rest => do
    if v.type ≠ t then throw (.phiValue n (types.text v.type) (types.text t))
    checkIncoming t (n + 1) rest

def checkPhi : Rule := do
  unless types.isSized i.type do throw (.phiUnsized (types.text i.type))
  if i.incoming.length ≠ i.operands.length then throw .phiPairs
  checkIncoming types i.type 0 i.operands

def checkCondition : Rule := do
  let c :: _ := i.operands | throw .unreadable
  unless types.lookup c.type = some (.int 1) do throw (.condition (types.text c.type))

def checkCases (c : Context) (t : TypeRef) : Nat → List Nat → List Value → Rule
  | _, _, [] => pure ()
  | n, seen, v :: rest => do
    let some ⟨_, .int _ _⟩ := c.lookupConstant v | throw (.caseLiteral n)
    if v.type ≠ t then throw (.caseType n (c.types.text v.type) (c.types.text t))
    if v.id ∈ seen then throw (.caseDuplicate (c.literal v))
    checkCases c t (n + 1) (v.id :: seen) rest

def checkSwitch (c : Context) : Rule := do
  let scrutinee :: cases := i.operands | throw .unreadable
  unless c.types.isIntRef scrutinee.type do throw (.scrutinee (c.types.text scrutinee.type))
  if i.targets.length ≠ i.operands.length then throw .switchTargets
  checkCases c scrutinee.type 0 [] cases

def checkRet (f : Func) : Rule := do
  if types.lookup f.retType = some .void then
    if i.operands ≠ [] then throw (.returnsVoid f.name)
  else
    let v :: _ := i.operands | throw (.returnMissing f.name (types.text f.retType))
    if v.type ≠ f.retType then
      throw (.returnType (types.text v.type) f.name (types.text f.retType))

end Rules

def checkTerminator (c : Context) (f : Func) (i : Instr) : Rule :=
  match i.op with
  | .br | .unreachable => pure ()
  | .condbr => i.checkCondition c.types
  | .switch => i.checkSwitch c
  | .ret => i.checkRet c.types f
  | _ => throw .unreadable

def checkRule (c : Context) (m : Module) (f : Func) (i : Instr) : Rule :=
  match i.op.category with
  | .intBinary => i.checkIntBinary c.types
  | .floatBinary | .floatUnary => i.checkFloatArith c.types
  | .compare => i.checkCompare c.types
  | .cast => i.checkCast c.types
  | .memory => i.checkMemory c.types
  | .call => i.checkCall c.types m
  | .select => i.checkSelect c.types
  | .phi => i.checkPhi c.types
  | .terminator => i.checkTerminator c f

end Instr

namespace World

/-- Is an instruction well typed in a function? The function may belong to another module than the
one whose symbols and types count. -/
def checkInstr (w : World) (m : Nat) (f : FuncRef) (i : Instr) : Except TypingError Unit :=
  let fn := w.func f
  let rule : Rule := do
    i.checkShape
    i.checkBlocks fn.name (w.isBlockOf f)
    i.checkRule (w.contextOf m) (w.module m) fn
  rule.mapError fun cause => ⟨i.op, cause, i.loc⟩

end World

end TypedIR
