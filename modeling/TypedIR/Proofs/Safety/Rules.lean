import TypedIR.Proofs.Registry.Invariant
import TypedIR.Proofs.Safety.Access
import TypedIR.Proofs.Typing.Judgment

namespace TypedIR

def Opcode.reads (op : Opcode) : Nat :=
  match op.category with
  | .intBinary | .compare => 2
  | .floatBinary | .floatUnary | .cast | .call => 1
  | .select => 3
  | .memory => if op = .store then 2 else if op = .load then 1 else 0
  | .terminator => if op = .condbr ∨ op = .switch then 1 else 0
  | .phi => 0

theorem Opcode.reads_le_minOperands (op : Opcode) : op.reads ≤ op.minOperands := by
  cases op <;> decide

def TypeRegistry.Admitted (r : TypeRegistry) : Prop :=
  ∀ t d, r.lookup t = some d → d.isNamed = false → r.Admits d

namespace Unguarded

abbrev Rule := ExceptT TypingCause Access Unit

section Rules

variable (types : TypeRegistry) (i : Instr)

def checkIntBinary : Rule := do
  let a ← read i.operands 0
  let b ← read i.operands 1
  if a.type ≠ b.type then throw (.operandsDiffer (types.text a.type) (types.text b.type))
  unless (types.scalar? a.type).any TypeDesc.isInt do throw (.needsInt (types.text a.type))
  verdict (i.expectResult types a.type)

def checkFloatArith : Rule := do
  let a ← read i.operands 0
  if i.operands.length = 2 then
    let b ← read i.operands 1
    if a.type ≠ b.type then throw (.operandsDiffer (types.text a.type) (types.text b.type))
  unless (types.scalar? a.type).any TypeDesc.isFloat do throw (.needsFloat (types.text a.type))
  verdict (i.expectResult types a.type)

def checkCompare : Rule := do
  let a ← read i.operands 0
  let b ← read i.operands 1
  if a.type ≠ b.type then throw (.operandsDiffer (types.text a.type) (types.text b.type))
  let scalar := types.scalar? a.type
  if i.op = .icmp then
    unless scalar.any (fun d => d.isInt || d.isPointer) do
      throw (.needsIntOrPointer (types.text a.type))
    unless i.predicate.isInt do throw (.intPredicate i.predicate.spelling)
  else
    unless scalar.any TypeDesc.isFloat do throw (.needsFloat (types.text a.type))
    unless i.predicate.isFloat do throw (.floatPredicate i.predicate.spelling)
  let n := types.lanes a.type
  unless types.scalar? i.type = some (.int 1) ∧ types.lanes i.type = n do
    throw (.comparisonResult (n != 0) (types.text i.type))

/-- The bits of a type. A vector has those of its elements, whose descriptor is not asked for but
used; elements that are vectors are taken apart in the same way, as often as is allowed. -/
def bitWidthWithin : Nat → TypeRef → Access UInt64
  | 0, _ => pure 0
  | depth + 1, t =>
    match types.lookup t with
    | some (.int bits) => pure bits.toUInt64
    | some (.float kind) => pure kind.bits.toUInt64
    | some (.vector elem count) => do
      let e ← desc types elem
      if e.isPointer then pure 0 else return count * (← bitWidthWithin depth elem)
    | _ => pure 0

def bitWidth (t : TypeRef) : Access UInt64 := bitWidthWithin types (types.size + 1) t

def checkCast : Rule := do
  let a ← read i.operands 0
  match types.lookup a.type, types.lookup i.type with
  | some source, some target =>
    let sourceBits ← bitWidth types a.type
    let targetBits ← bitWidth types i.type
    unless Instr.castAllowed i.op source target sourceBits targetBits do
      throw (.cast (types.text a.type) (types.text i.type))
  | _, _ => throw .castUnknown

def checkAlloca : Rule := do
  unless types.isSized i.typeOperand do throw (.allocaUnsized (types.text i.typeOperand))
  unless types.isPointerRef i.type do throw (.allocaResult (types.text i.type))
  if i.operands ≠ [] then
    let count ← read i.operands 0
    unless types.isIntRef count.type do throw (.allocaCount (types.text count.type))

def checkLoad : Rule := do
  let p ← read i.operands 0
  unless types.isPointerRef p.type do throw (.address (types.text p.type))
  unless types.isSized i.type do throw (.loadUnsized (types.text i.type))

def checkStore : Rule := do
  let p ← read i.operands 1
  unless types.isPointerRef p.type do throw (.address (types.text p.type))
  let v ← read i.operands 0
  unless types.isSized v.type do throw (.storeUnsized (types.text v.type))

def checkMemory : Rule :=
  match i.op with
  | .alloca => checkAlloca types i
  | .load => checkLoad types i
  | .store => checkStore types i
  | _ => throw .unreadable

def checkArgument (params : List TypeRef) (k : Nat) : Rule := do
  let a ← read i.operands (k + 1)
  if k < params.length then
    let p ← read params k
    if a.type ≠ p then throw (.argumentType k (types.text a.type) (types.text p))
  else unless types.isSized a.type do throw (.argumentUnsized k (types.text a.type))

def checkCallResult (result : TypeRef) : Rule := do
  let d ← desc types result
  if d = .void then
    if i.result.isSome then throw .voidCallResult
  else
    if i.result.isNone then throw .callResultMissing
    verdict (i.expectResult types result)

def checkCall (m : Module) : Rule := do
  let callee ← read i.operands 0
  unless types.isPointerRef callee.type do throw (.callee (types.text callee.type))
  let some (.fn result params variadic) := types.lookup i.typeOperand
    | throw (.signature (types.text i.typeOperand))
  verdict (i.checkCallee types m callee)
  let args := i.operands.length - 1
  if args < params.length ∨ (params.length < args ∧ !variadic) then
    throw (.argumentCount params.length variadic args)
  (List.range args).forM (checkArgument types i params)
  checkCallResult types i result

def checkSelect : Rule := do
  let c ← read i.operands 0
  let a ← read i.operands 1
  let b ← read i.operands 2
  unless types.scalar? c.type = some (.int 1) do throw (.condition (types.text c.type))
  if types.lanes c.type ≠ 0 ∧ types.lanes c.type ≠ types.lanes a.type then throw .conditionLanes
  if a.type ≠ b.type then throw (.operandsDiffer (types.text a.type) (types.text b.type))
  unless types.isSized a.type do throw (.selectUnsized (types.text a.type))
  verdict (i.expectResult types a.type)

def checkIncoming (k : Nat) : Rule := do
  let v ← read i.operands k
  if v.type ≠ i.type then throw (.phiValue k (types.text v.type) (types.text i.type))

def checkPhi : Rule := do
  unless types.isSized i.type do throw (.phiUnsized (types.text i.type))
  if i.incoming.length ≠ i.operands.length then throw .phiPairs
  (List.range i.operands.length).forM (checkIncoming types i)

def checkCondition : Rule := do
  let c ← read i.operands 0
  unless types.lookup c.type = some (.int 1) do throw (.condition (types.text c.type))

def intLiteral (c : Context) (v : Value) : Access String := do
  let x ← read c.constants.entries (v.id - 1)
  let d ← desc c.types x.type
  match d, x.payload with
  | .int width, .int bits negative => pure (ConstantPool.intText width bits negative)
  | _, _ => pure "?"

def checkCases (c : Context) (t : TypeRef) : List Nat → List Nat → Rule
  | _, [] => pure ()
  | seen, k :: ks => do
    let v ← read i.operands (k + 1)
    let some ⟨_, .int _ _⟩ := c.lookupConstant v | throw (.caseLiteral k)
    if v.type ≠ t then throw (.caseType k (c.types.text v.type) (c.types.text t))
    if v.id ∈ seen then
      let literal ← intLiteral c v
      throw (.caseDuplicate literal)
    checkCases c t (v.id :: seen) ks

def checkSwitch (c : Context) : Rule := do
  let scrutinee ← read i.operands 0
  unless c.types.isIntRef scrutinee.type do throw (.scrutinee (c.types.text scrutinee.type))
  if i.targets.length ≠ i.operands.length then throw .switchTargets
  checkCases i c scrutinee.type [] (List.range (i.operands.length - 1))

def checkRet (f : Func) : Rule := do
  if types.lookup f.retType = some .void then
    if i.operands ≠ [] then throw (.returnsVoid f.name)
  else
    if i.operands = [] then throw (.returnMissing f.name (types.text f.retType))
    let v ← read i.operands 0
    if v.type ≠ f.retType then
      throw (.returnType (types.text v.type) f.name (types.text f.retType))

end Rules

def checkTerminator (c : Context) (f : Func) (i : Instr) : Rule :=
  match i.op with
  | .br | .unreachable => pure ()
  | .condbr => checkCondition c.types i
  | .switch => checkSwitch i c
  | .ret => checkRet c.types i f
  | _ => throw .unreadable

def checkRule (c : Context) (m : Module) (f : Func) (i : Instr) : Rule :=
  match i.op.category with
  | .intBinary => checkIntBinary c.types i
  | .floatBinary | .floatUnary => checkFloatArith c.types i
  | .compare => checkCompare c.types i
  | .cast => checkCast c.types i
  | .memory => checkMemory c.types i
  | .call => checkCall c.types i m
  | .select => checkSelect c.types i
  | .phi => checkPhi c.types i
  | .terminator => checkTerminator c f i

def checkOwn (w : World) (f : FuncRef) (cause : TypingCause) (bs : List (Option BlockRef)) : Rule :=
  bs.forM fun b => do
    unless ← isBlockOf w f b do throw cause

def checkBlocks (w : World) (f : FuncRef) (i : Instr) : Rule := do
  checkOwn w f (.foreignTarget (w.func f).name) i.targets
  checkOwn w f (.foreignIncoming (w.func f).name) i.incoming

def checkInstr (w : World) (m : Nat) (f : FuncRef) (i : Instr) :
    ExceptT TypingError Access Unit :=
  let rule : Rule := do
    verdict i.checkShape
    checkBlocks w f i
    checkRule (w.contextOf m) (w.module m) (w.func f) i
  ExceptT.mk do return (← rule.run).mapError fun cause => ⟨i.op, cause, i.loc⟩

def checkTemp (c : Context) (f : Func) (v : Value) : ExceptT OperandError Access Unit := do
  if v.scope ≠ f.serial then throw (.outside v.text f.name)
  if f.temps.length ≤ v.id ∨ ¬ (v.id < f.params.length ↔ v.kind = .param) then
    throw (.undefined v.text f.name)
  let t ← read f.temps v.id
  if t.type ≠ v.type then
    throw (.otherType v.text (c.types.text v.type) (c.types.text t.type))

def checkOperand (c : Context) (m : Module) (f : Func) (v : Value) :
    ExceptT OperandError Access Unit := do
  if !c.types.owns v.type then
    throw (if v.type.isValid ∧ v.type.context ≠ c.id then .foreign v.text else .invalidType v.text)
  match v.kind with
  | .const =>
    if v.scope ≠ c.id then throw (.foreign v.text)
    if (c.lookupConstant v).isNone then throw (.notConstant v.text)
  | .global => if (m.symbolName? v).isNone then throw (.notSymbol v.text m.name)
  | .result | .param => checkTemp c f v

section Verdicts

variable {types : TypeRegistry} {i : Instr} {scrutinee : Value} {rest : List Value} {n : Nat}

theorem exists_eq_cons_of_lt {vs : List Value} (h : n < vs.length) :
    ∃ v rest, vs = v :: rest ∧ n ≤ rest.length := by
  obtain ⟨v, rest, rfl⟩ := List.exists_cons_of_length_pos (Nat.zero_lt_of_lt h)
  exact ⟨v, rest, rfl, Nat.le_of_lt_succ h⟩

theorem checkIntBinary_eq (hn : 2 ≤ i.operands.length) :
    checkIntBinary types i = verdict (i.checkIntBinary types) := by
  obtain ⟨a, rest₁, h, hn₁⟩ := exists_eq_cons_of_lt hn
  obtain ⟨b, rest₂, rfl, -⟩ := exists_eq_cons_of_lt hn₁
  simp [checkIntBinary, Instr.checkIntBinary, h, read]

example : (checkIntBinary types {}).run = .error (.outOfRange 0 0) := rfl

theorem checkFloatArith_eq (hn : 1 ≤ i.operands.length) :
    checkFloatArith types i = verdict (i.checkFloatArith types) := by
  obtain ⟨a, rest, h, -⟩ := exists_eq_cons_of_lt hn
  rcases rest with _ | ⟨b, _ | ⟨c, rest⟩⟩
  · simp [checkFloatArith, Instr.checkFloatArith, h, read]
  · simp [checkFloatArith, Instr.checkFloatArith, h, read]
  · simp [checkFloatArith, Instr.checkFloatArith, h, read]

theorem checkCompare_eq (hn : 2 ≤ i.operands.length) :
    checkCompare types i = verdict (i.checkCompare types) := by
  obtain ⟨a, rest₁, h, hn₁⟩ := exists_eq_cons_of_lt hn
  obtain ⟨b, rest₂, rfl, -⟩ := exists_eq_cons_of_lt hn₁
  simp [checkCompare, Instr.checkCompare, h, read]

theorem bitWidth_eq (ht : types.Admitted) (t : TypeRef) :
    bitWidth types t = .ok (types.bitWidth t) := by
  cases hd : types.lookup t with
  | none =>
    simp only [bitWidth, bitWidthWithin, TypeRegistry.bitWidth, hd]
    rfl
  | some d =>
    cases d with
    | vector elem count =>
      -- The elements are there, and they are scalars: two steps are enough.
      obtain ⟨-, e, he, hs⟩ := ht t _ hd rfl
      obtain ⟨size, hsize⟩ : ∃ size, types.size = size + 1 := by
        obtain ⟨position, rfl, hp⟩ := TypeRegistry.lookup_eq_some_iff.1 hd
        have hlt : position < types.size := (List.getElem?_eq_some_iff.1 hp).1
        exact Nat.exists_eq_add_one_of_ne_zero (Nat.ne_zero_of_lt hlt)
      simp only [bitWidth, bitWidthWithin, TypeRegistry.bitWidth, hd, hsize, desc_of_lookup he, he]
      cases e with
      | int bits => rfl
      | float kind => rfl
      | pointer space => simp [TypeDesc.isPointer, bind, Except.bind, pure, Except.pure]
      | _ => simp [TypeDesc.isScalar] at hs
    | _ =>
      simp only [bitWidth, bitWidthWithin, TypeRegistry.bitWidth, hd]
      rfl

theorem checkCast_eq (ht : types.Admitted) (hn : 1 ≤ i.operands.length) :
    checkCast types i = verdict (i.checkCast types) := by
  obtain ⟨a, rest, h, -⟩ := exists_eq_cons_of_lt hn
  cases hs : types.lookup a.type with
  | none => simp [checkCast, Instr.checkCast, h, read, hs]
  | some source =>
    cases hd : types.lookup i.type with
    | none => simp [checkCast, Instr.checkCast, h, read, hs, hd]
    | some target => simp [checkCast, Instr.checkCast, h, read, hs, hd, bitWidth_eq ht]

theorem checkAlloca_eq : checkAlloca types i = verdict (i.checkAlloca types) := by
  cases h : i.operands with
  | nil => simp [checkAlloca, Instr.checkAlloca, h]
  | cons count rest => simp [checkAlloca, Instr.checkAlloca, h, read]

theorem checkLoad_eq (hn : 1 ≤ i.operands.length) :
    checkLoad types i = verdict (i.checkLoad types) := by
  obtain ⟨p, rest, h, -⟩ := exists_eq_cons_of_lt hn
  simp [checkLoad, Instr.checkLoad, h, read]

theorem checkStore_eq (hn : 2 ≤ i.operands.length) :
    checkStore types i = verdict (i.checkStore types) := by
  obtain ⟨v, rest₁, h, hn₁⟩ := exists_eq_cons_of_lt hn
  obtain ⟨p, rest₂, rfl, -⟩ := exists_eq_cons_of_lt hn₁
  simp [checkStore, Instr.checkStore, h, read]

theorem checkMemory_eq
    (hn : (if i.op = .store then 2 else if i.op = .load then 1 else 0) ≤ i.operands.length) :
    checkMemory types i = verdict (i.checkMemory types) := by
  rw [checkMemory, Instr.checkMemory]
  cases hop : i.op with
  | alloca => exact checkAlloca_eq
  | load => exact checkLoad_eq (by simpa [hop] using hn)
  | store => exact checkStore_eq (by simpa [hop] using hn)
  | _ => rfl

theorem forM_checkArgument_eq {callee : Value} {params : List TypeRef}
    (h : i.operands = callee :: rest) :
    (List.range rest.length).forM (checkArgument types i params) =
      verdict (Instr.checkArguments types 0 params rest) := by
  -- The parameters that are left at position `k` are `params.drop k`.
  rw [List.range_eq_range']
  refine forM_range'_eq (g := fun k => Instr.checkArguments types k (params.drop k))
    (fun _ => by rw [Instr.checkArguments]; rfl) (fun k v vs hv => ?_) List.drop_zero
  have hread : i.operands[k + 1]? = some v := by rw [h, List.getElem?_cons_succ, hv]
  rw [checkArgument, read_of_getElem? hread, pure_bind]
  by_cases hk : k < params.length
  · rw [List.drop_eq_getElem_cons hk]
    by_cases hp : v.type = params[k]
    · simp [Instr.checkArguments, hk, read, hp]
    · simp [Instr.checkArguments, hk, read, hp]
  · have hend : params.drop k = [] := List.drop_eq_nil_of_le (Nat.le_of_not_lt hk)
    have hend' : params.drop (k + 1) = [] := List.drop_eq_nil_of_le (by omega)
    by_cases hs : types.isSized v.type
    · simp [Instr.checkArguments, hk, hend, hend', hs]
    · simp [Instr.checkArguments, hk, hend, hend', hs]

theorem checkCallResult_eq {result : TypeRef} {d : TypeDesc} (h : types.lookup result = some d) :
    checkCallResult types i result = verdict (i.checkCallResult types result) := by
  rw [checkCallResult, desc_of_lookup h]
  cases hr : i.result with
  | none => cases d <;> simp [Instr.checkCallResult, h, hr]
  | some id => cases d <;> simp [Instr.checkCallResult, h, hr]

theorem exists_result {t result : TypeRef} {params : List TypeRef} {variadic : Bool}
    (ht : types.Admitted) (h : types.lookup t = some (.fn result params variadic)) :
    ∃ d, types.lookup result = some d := by
  rcases (ht t _ h rfl).1 with hv | hs
  · exact ⟨.void, hv⟩
  · obtain ⟨d, hd, -⟩ := TypeRegistry.isSized_iff.1 hs
    exact ⟨d, hd⟩

theorem checkCall_eq {m : Module} (ht : types.Admitted) (hn : 1 ≤ i.operands.length) :
    checkCall types i m = verdict (i.checkCall types m) := by
  obtain ⟨callee, rest, h, -⟩ := exists_eq_cons_of_lt hn
  cases hd : types.lookup i.typeOperand with
  | none => simp [checkCall, Instr.checkCall, h, read, hd]
  | some d =>
    cases d with
    | fn result params variadic =>
      obtain ⟨e, he⟩ := exists_result ht hd
      simp [checkCall, Instr.checkCall, h, read, hd, checkCallResult_eq he, forM_checkArgument_eq h]
    | _ => simp [checkCall, Instr.checkCall, h, read, hd]

theorem checkSelect_eq (hn : 3 ≤ i.operands.length) :
    checkSelect types i = verdict (i.checkSelect types) := by
  obtain ⟨c, rest₁, h, hn₁⟩ := exists_eq_cons_of_lt hn
  obtain ⟨a, rest₂, rfl, hn₂⟩ := exists_eq_cons_of_lt hn₁
  obtain ⟨b, rest₃, rfl, -⟩ := exists_eq_cons_of_lt hn₂
  simp [checkSelect, Instr.checkSelect, h, read]

theorem forM_checkIncoming_eq : (List.range i.operands.length).forM (checkIncoming types i) =
    verdict (Instr.checkIncoming types i.type 0 i.operands) := by
  rw [List.range_eq_range']
  refine forM_range'_eq (fun _ => by rw [Instr.checkIncoming]; rfl) (fun k v vs hv => ?_)
    List.drop_zero
  rw [checkIncoming, read_of_getElem? hv, pure_bind]
  by_cases ht : v.type = i.type
  · simp [Instr.checkIncoming, ht]
  · simp [Instr.checkIncoming, ht]

theorem checkPhi_eq : checkPhi types i = verdict (i.checkPhi types) := by
  simp [checkPhi, Instr.checkPhi, forM_checkIncoming_eq]

theorem checkCondition_eq (hn : 1 ≤ i.operands.length) :
    checkCondition types i = verdict (i.checkCondition types) := by
  obtain ⟨c, rest, h, -⟩ := exists_eq_cons_of_lt hn
  simp [checkCondition, Instr.checkCondition, h, read]

theorem intLiteral_eq {c : Context} {v : Value} {t : TypeRef} {bits : Nat} {negative : Bool}
    (hc : c.lookupConstant v = some ⟨t, .int bits negative⟩) (ht : c.types.isIntRef v.type) :
    intLiteral c v = .ok (c.literal v) := by
  obtain ⟨width, hw⟩ : ∃ width, c.types.lookup v.type = some (.int width) := by
    cases hl : c.types.lookup v.type with
    | none => simp [TypeRegistry.isIntRef, hl] at ht
    | some d => cases d <;> simp_all [TypeRegistry.isIntRef, TypeDesc.isInt]
  have hpool : c.constants.lookup c.types.context v = some ⟨t, .int bits negative⟩ := hc
  rw [Context.lookupConstant, ConstantPool.lookup] at hc
  split at hc
  next hv =>
    obtain ⟨hentry, htype⟩ := Option.filter_eq_some_iff.1 hc
    obtain rfl : t = v.type := by simpa using htype
    obtain ⟨id, hid⟩ := Nat.exists_eq_add_one_of_ne_zero hv.2.2
    have htext : c.literal v = ConstantPool.intText width bits negative := by
      rw [hid] at hentry
      simp only [Context.literal, ConstantPool.literal, hpool, hid, ConstantPool.literalWithin,
        hentry, hw]
    rw [htext, intLiteral, read_of_getElem? hentry, pure_bind, desc_of_lookup hw]
    rfl
  next => cases hc

theorem checkCases_eq {c : Context} {t : TypeRef} (ht : c.types.isIntRef t)
    (h : i.operands = scrutinee :: rest) {vs : List Value} {k : Nat} {seen : List Nat}
    (hvs : rest.drop k = vs) :
    checkCases i c t seen (List.range' k vs.length) = verdict (Instr.checkCases c t k seen vs) := by
  induction vs generalizing k seen with
  | nil =>
    rw [Instr.checkCases]
    rfl
  | cons v vs ih =>
    obtain ⟨hv, hrest⟩ := of_drop_eq_cons hvs
    have hread : i.operands[k + 1]? = some v := by rw [h, List.getElem?_cons_succ, hv]
    rw [List.length_cons, List.range'_succ, checkCases, read_of_getElem? hread, pure_bind]
    simp only [Instr.checkCases, ih hrest]
    cases hc : c.lookupConstant v with
    | none => simp
    | some x =>
      obtain ⟨type, payload⟩ := x
      cases payload with
      | int bits negative =>
        by_cases htype : v.type = t
        · simp [htype, intLiteral_eq hc (htype ▸ ht)]
        · simp [htype]
      | _ => simp

theorem checkSwitch_eq {c : Context} (hn : 1 ≤ i.operands.length) :
    checkSwitch i c = verdict (i.checkSwitch c) := by
  obtain ⟨scrutinee, rest, h, -⟩ := exists_eq_cons_of_lt hn
  by_cases ht : c.types.isIntRef scrutinee.type
  · have hcases : checkCases i c scrutinee.type [] (List.range' 0 rest.length) =
        verdict (Instr.checkCases c scrutinee.type 0 [] rest) := checkCases_eq ht h List.drop_zero
    simp [checkSwitch, Instr.checkSwitch, h, read, ht, List.range_eq_range', hcases]
  · simp [checkSwitch, Instr.checkSwitch, h, read, ht]

theorem checkRet_eq {f : Func} : checkRet types i f = verdict (i.checkRet types f) := by
  cases h : i.operands with
  | nil => simp [checkRet, Instr.checkRet, h]
  | cons v rest => simp [checkRet, Instr.checkRet, h, read]

theorem checkTerminator_eq {c : Context} {f : Func}
    (hn : (if i.op = .condbr ∨ i.op = .switch then 1 else 0) ≤ i.operands.length) :
    checkTerminator c f i = verdict (i.checkTerminator c f) := by
  rw [checkTerminator, Instr.checkTerminator]
  cases hop : i.op with
  | condbr => exact checkCondition_eq (by simpa [hop] using hn)
  | switch => exact checkSwitch_eq (by simpa [hop] using hn)
  | ret => exact checkRet_eq
  | _ => rfl

theorem checkRule_eq {c : Context} {m : Module} {f : Func} (hc : c.types.Admitted) (hi : i.Shape) :
    checkRule c m f i = verdict (i.checkRule c m f) := by
  have hn : i.op.reads ≤ i.operands.length := Nat.le_trans i.op.reads_le_minOperands hi.min
  rw [Opcode.reads] at hn
  rw [checkRule, Instr.checkRule]
  cases hop : i.op.category with
  | intBinary => exact checkIntBinary_eq (by simpa only [hop] using hn)
  | floatBinary => exact checkFloatArith_eq (by simpa only [hop] using hn)
  | floatUnary => exact checkFloatArith_eq (by simpa only [hop] using hn)
  | compare => exact checkCompare_eq (by simpa only [hop] using hn)
  | cast => exact checkCast_eq hc (by simpa only [hop] using hn)
  | memory => exact checkMemory_eq (by simpa only [hop] using hn)
  | call => exact checkCall_eq hc (by simpa only [hop] using hn)
  | select => exact checkSelect_eq (by simpa only [hop] using hn)
  | phi => exact checkPhi_eq
  | terminator => exact checkTerminator_eq (by simpa only [hop] using hn)

theorem checkOwn_eq {w : World} {f : FuncRef} {cause : TypingCause} {bs : List (Option BlockRef)}
    (h : ∀ b ∈ bs, w.NullOrBlock b) :
    checkOwn w f cause bs = verdict (unless bs.all (w.isBlockOf f) do throw cause) := by
  induction bs with
  | nil => rfl
  | cons b bs ih =>
    rw [List.forall_mem_cons] at h
    have hrest := ih h.2
    rw [checkOwn] at hrest ⊢
    rw [List.forM, isBlockOf_eq h.1, ok_bind, hrest, List.all_cons]
    cases w.isBlockOf f b <;> simp

theorem checkBlocks_eq {w : World} {f : FuncRef}
    (hi : ∀ b ∈ i.targets ++ i.incoming, w.NullOrBlock b) :
    checkBlocks w f i = verdict (i.checkBlocks (w.func f).name (w.isBlockOf f)) := by
  rw [List.forall_mem_append] at hi
  rw [checkBlocks, checkOwn_eq hi.1, checkOwn_eq hi.2, Instr.checkBlocks]
  cases i.targets.all (w.isBlockOf f) <;> rfl

theorem checkInstr_eq {w : World} {m : Nat} {f : FuncRef} (hc : (w.contextOf m).types.Admitted)
    (hi : ∀ b ∈ i.targets ++ i.incoming, w.NullOrBlock b) :
    checkInstr w m f i = verdict (w.checkInstr m f i) := by
  rw [checkInstr, World.checkInstr, checkBlocks_eq hi]
  cases hs : i.checkShape with
  | error e => rfl
  | ok u =>
    rw [checkRule_eq hc (Instr.checkShape_iff.1 hs)]
    cases i.checkBlocks (w.func f).name (w.isBlockOf f) with
    | error e => rfl
    | ok u => rfl

theorem checkTemp_eq {c : Context} {f : Func} {v : Value} :
    checkTemp c f v = verdict (TypedIR.checkTemp c f v) := by
  cases ht : f.temps[v.id]? with
  | none =>
    have hlen : f.temps.length ≤ v.id := List.getElem?_eq_none_iff.1 ht
    simp [checkTemp, TypedIR.checkTemp, hlen]
  | some t =>
    have hlen : ¬ f.temps.length ≤ v.id := Nat.not_le.2 (List.getElem?_eq_some_iff.1 ht).1
    simp [checkTemp, TypedIR.checkTemp, read, ht, hlen]

theorem checkOperand_eq {c : Context} {m : Module} {f : Func} {v : Value} :
    checkOperand c m f v = verdict (TypedIR.checkOperand c m f v) := by
  cases hk : v.kind <;> simp [checkOperand, TypedIR.checkOperand, checkTemp_eq, hk]

end Verdicts

end Unguarded

end TypedIR
