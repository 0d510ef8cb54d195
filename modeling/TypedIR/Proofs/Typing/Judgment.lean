import TypedIR.Proofs.Checks
import TypedIR.Typing.Rule

namespace TypedIR.Instr

section Operands

variable {α : Type} {a b c : α} {xs : List α}

theorem exists_eq_cons_iff {p : α → List α → Prop} :
    (∃ a' xs', a :: xs = a' :: xs' ∧ p a' xs') ↔ p a xs := by
  simp only [List.cons.injEq]
  constructor
  · rintro ⟨_, _, ⟨rfl, rfl⟩, h⟩
    exact h
  · exact fun h => ⟨a, xs, ⟨rfl, rfl⟩, h⟩

theorem exists_eq_cons₂_iff {p : α → α → List α → Prop} :
    (∃ a' b' xs', a :: b :: xs = a' :: b' :: xs' ∧ p a' b' xs') ↔ p a b xs := by
  simp only [List.cons.injEq]
  constructor
  · rintro ⟨_, _, _, ⟨rfl, rfl, rfl⟩, h⟩
    exact h
  · exact fun h => ⟨a, b, xs, ⟨rfl, rfl, rfl⟩, h⟩

theorem exists_eq_cons₃_iff {p : α → α → α → List α → Prop} :
    (∃ a' b' c' xs', a :: b :: c :: xs = a' :: b' :: c' :: xs' ∧ p a' b' c' xs') ↔ p a b c xs := by
  simp only [List.cons.injEq]
  constructor
  · rintro ⟨_, _, _, _, ⟨rfl, rfl, rfl, rfl⟩, h⟩
    exact h
  · exact fun h => ⟨a, b, c, xs, ⟨rfl, rfl, rfl, rfl⟩, h⟩

end Operands

variable {types : TypeRegistry} {i : Instr} {c : Context} {m : Module} {f : Func}

structure Shape (i : Instr) : Prop where
  min : i.op.minOperands ≤ i.operands.length
  max : ∀ n, i.op.maxOperands? = some n → i.operands.length ≤ n
  successors : ∀ n, i.op.successors? = some n → i.targets.length = n
  never : i.op.resultArity = .never → i.result = none
  always : i.op.resultArity = .always → i.result ≠ none
  incoming : i.op ≠ .phi → i.incoming = []

theorem checkSuccessors_iff : i.checkSuccessors = .ok () ↔
    ∀ n, i.op.successors? = some n → i.targets.length = n := by
  rw [checkSuccessors]
  cases i.op.successors? with
  | none => simp
  | some n => simp [ite_eq_ok_iff]

theorem checkArity_iff : i.checkArity = .ok () ↔
    (i.op.resultArity = .never → i.result = none) ∧
      (i.op.resultArity = .always → i.result ≠ none) := by
  rw [checkArity]
  cases i.op.resultArity <;> cases i.result <;> simp

theorem checkShape_iff : i.checkShape = .ok () ↔ i.Shape := by
  have hmax : ¬ i.op.maxOperands?.any (· < i.operands.length) ↔
      ∀ n, i.op.maxOperands? = some n → i.operands.length ≤ n := by
    cases i.op.maxOperands? <;> simp
  simp only [checkShape, ite_eq_ok_iff, seq_eq_ok_iff, throw_ne_ok, pure_eq_ok_iff,
    checkSuccessors_iff, checkArity_iff, not_or, hmax]
  constructor
  · intro h
    constructor <;> grind
  · rintro ⟨h1, h2, h3, h4, h5, h6⟩
    grind

theorem checkBlocks_iff {func : String} {isBlock : Option BlockRef → Bool} :
    i.checkBlocks func isBlock = .ok () ↔
      (∀ t ∈ i.targets, isBlock t) ∧ ∀ t ∈ i.incoming, isBlock t := by
  simp [checkBlocks, ite_eq_ok_iff]

theorem expectResult_iff {t : TypeRef} : i.expectResult types t = .ok () ↔ i.type = t := by
  by_cases h : i.type = t <;> simp [expectResult, h]

theorem checkIntBinary_iff : i.checkIntBinary types = .ok () ↔ ∃ a b rest,
    i.operands = a :: b :: rest ∧ a.type = b.type ∧ (types.scalar? a.type).any TypeDesc.isInt ∧
      i.type = a.type := by
  rw [checkIntBinary]
  split
  next a b rest h =>
    rw [h, exists_eq_cons₂_iff]
    simp only [ite_eq_ok_iff, seq_eq_ok_iff, throw_ne_ok, expectResult_iff]
    grind
  next h => simpa using fun a b rest he => absurd he (h a b rest)

theorem checkFloatArith_iff : i.checkFloatArith types = .ok () ↔ ∃ a rest,
    i.operands = a :: rest ∧ (∀ b, rest = [b] → a.type = b.type) ∧
      (types.scalar? a.type).any TypeDesc.isFloat ∧ i.type = a.type := by
  rw [checkFloatArith]
  split
  next a rest h =>
    rw [h, exists_eq_cons_iff]
    cases rest with
    | nil =>
      simp only [ite_eq_ok_iff, seq_eq_ok_iff, throw_ne_ok, expectResult_iff]
      grind
    | cons b rest =>
      cases rest with
      | nil =>
        simp only [ite_eq_ok_iff, seq_eq_ok_iff, throw_ne_ok, expectResult_iff]
        grind
      | cons b' rest =>
        simp only [ite_eq_ok_iff, seq_eq_ok_iff, throw_ne_ok, expectResult_iff]
        grind
  next h => simpa using fun a rest he => absurd he (h a rest)

theorem checkCompare_iff : i.checkCompare types = .ok () ↔ ∃ a b rest,
    i.operands = a :: b :: rest ∧ a.type = b.type ∧
      (if i.op = .icmp then
        (types.scalar? a.type).any (fun d => d.isInt || d.isPointer) ∧ i.predicate.isInt
      else (types.scalar? a.type).any TypeDesc.isFloat ∧ i.predicate.isFloat) ∧
      types.scalar? i.type = some (.int 1) ∧ types.lanes i.type = types.lanes a.type := by
  rw [checkCompare]
  split
  next a b rest h =>
    by_cases hop : i.op = .icmp
    · rw [h, exists_eq_cons₂_iff]
      simp only [ite_eq_ok_iff, seq_eq_ok_iff, throw_ne_ok, pure_eq_ok_iff, hop]
      grind
    · rw [h, exists_eq_cons₂_iff]
      simp only [ite_eq_ok_iff, seq_eq_ok_iff, throw_ne_ok, pure_eq_ok_iff, hop]
      grind
  next h => simpa using fun a b rest he => absurd he (h a b rest)

theorem checkCast_iff : i.checkCast types = .ok () ↔ ∃ a rest source target,
    i.operands = a :: rest ∧ types.lookup a.type = some source ∧
      types.lookup i.type = some target ∧
      castAllowed i.op source target (types.bitWidth a.type) (types.bitWidth i.type) := by
  rw [checkCast]
  split
  next a rest h =>
    split
    next source target hs ht => simp [h, ite_eq_ok_iff, hs, ht]
    next hn =>
      simp only [throw_ne_ok, false_iff]
      rintro ⟨a', rest', source, target, he, hs, ht, _⟩
      obtain ⟨rfl, rfl⟩ := List.cons.inj (h.symm.trans he)
      exact hn source target hs ht
  next h => simpa using fun a rest he => absurd he (h a rest)

theorem checkAlloca_iff : i.checkAlloca types = .ok () ↔
    types.isSized i.typeOperand ∧ types.isPointerRef i.type ∧
      ∀ count, i.operands.head? = some count → types.isIntRef count.type := by
  rw [checkAlloca]
  cases h : i.operands with
  | nil => simp [ite_eq_ok_iff]
  | cons count rest => simp [ite_eq_ok_iff]

theorem checkLoad_iff : i.checkLoad types = .ok () ↔ ∃ p rest, i.operands = p :: rest ∧
    types.isPointerRef p.type ∧ types.isSized i.type := by
  rw [checkLoad]
  split
  next p rest h => simp [h, ite_eq_ok_iff]
  next h => simpa using fun p rest he => absurd he (h p rest)

theorem checkStore_iff : i.checkStore types = .ok () ↔ ∃ v p rest, i.operands = v :: p :: rest ∧
    types.isPointerRef p.type ∧ types.isSized v.type := by
  rw [checkStore]
  split
  next v p rest h =>
    rw [h, exists_eq_cons₂_iff]
    simp only [ite_eq_ok_iff, seq_eq_ok_iff, throw_ne_ok, pure_eq_ok_iff]
    grind
  next h => simpa using fun v p rest he => absurd he (h v p rest)

def CallResult (types : TypeRegistry) (i : Instr) (result : TypeRef) : Prop :=
  ∃ d, types.lookup result = some d ∧
    if d = .void then i.result = none else i.result ≠ none ∧ i.type = result

theorem checkCallee_iff {callee : Value} : i.checkCallee types m callee = .ok () ↔
    (callee.kind = .global → callee.isFunction → ∀ target, m.funcs[callee.id]? = some target →
      target.type = i.typeOperand) := by
  rw [checkCallee]
  split
  next hc =>
    split
    next h => simp [h]
    next target h => simp [h, ite_eq_ok_iff, hc]
  next hc =>
    simp only [pure_eq_ok_iff, true_iff]
    exact fun hk hf => absurd ⟨hk, hf⟩ hc

theorem checkCallResult_iff {result : TypeRef} :
    i.checkCallResult types result = .ok () ↔ i.CallResult types result := by
  cases hl : types.lookup result with
  | none => simp [checkCallResult, CallResult, hl]
  | some d =>
    cases hr : i.result with
    | none => cases d <;> simp [checkCallResult, CallResult, hl, hr]
    | some id => cases d <;> simp [checkCallResult, CallResult, hl, hr, expectResult_iff]

theorem checkCall_iff : i.checkCall types m = .ok () ↔ ∃ callee args result params variadic,
    i.operands = callee :: args ∧ types.isPointerRef callee.type ∧
      types.lookup i.typeOperand = some (.fn result params variadic) ∧
      i.checkCallee types m callee = .ok () ∧
      params.length ≤ args.length ∧ (params.length < args.length → variadic) ∧
      checkArguments types 0 params args = .ok () ∧ i.CallResult types result := by
  rw [checkCall]
  split
  next callee args h =>
    cases hl : types.lookup i.typeOperand with
    | none => simp [ite_eq_ok_iff]
    | some d =>
      cases d with
      | fn result params variadic =>
        simp [h, ite_eq_ok_iff, checkCallResult_iff]
        grind
      | _ => simp [ite_eq_ok_iff]
  next h => simpa using fun callee args he => absurd he (h callee args)

theorem checkSelect_iff : i.checkSelect types = .ok () ↔ ∃ c a b rest,
    i.operands = c :: a :: b :: rest ∧ types.scalar? c.type = some (.int 1) ∧
      (types.lanes c.type ≠ 0 → types.lanes c.type = types.lanes a.type) ∧ a.type = b.type ∧
      types.isSized a.type ∧ i.type = a.type := by
  rw [checkSelect]
  split
  next c a b rest h =>
    rw [h, exists_eq_cons₃_iff]
    simp only [ite_eq_ok_iff, seq_eq_ok_iff, throw_ne_ok, expectResult_iff]
    grind
  next h => simpa using fun c a b rest he => absurd he (h c a b rest)

theorem checkIncoming_iff {t : TypeRef} {n : Nat} {vs : List Value} :
    checkIncoming types t n vs = .ok () ↔ ∀ v ∈ vs, v.type = t := by
  induction vs generalizing n with
  | nil => simp [checkIncoming]
  | cons v vs ih => simp [checkIncoming, ite_eq_ok_iff, ih]

theorem checkPhi_iff : i.checkPhi types = .ok () ↔ types.isSized i.type ∧
    i.incoming.length = i.operands.length ∧ ∀ v ∈ i.operands, v.type = i.type := by
  simp [checkPhi, ite_eq_ok_iff, checkIncoming_iff]

theorem checkCondition_iff : i.checkCondition types = .ok () ↔ ∃ c rest,
    i.operands = c :: rest ∧ types.lookup c.type = some (.int 1) := by
  rw [checkCondition]
  split
  next c rest h => simp [h, ite_eq_ok_iff]
  next h => simpa using fun c rest he => absurd he (h c rest)

def IsIntLiteral (c : Context) (v : Value) : Prop :=
  ∃ t bits negative, c.lookupConstant v = some ⟨t, .int bits negative⟩

theorem checkCases_iff {t : TypeRef} {n : Nat} {seen : List Nat} {vs : List Value} :
    checkCases c t n seen vs = .ok () ↔
      (∀ v ∈ vs, IsIntLiteral c v ∧ v.type = t ∧ v.id ∉ seen) ∧ (vs.map (·.id)).Nodup := by
  induction vs generalizing n seen with
  | nil => simp [checkCases]
  | cons v vs ih =>
    simp only [checkCases]
    split
    next k bits negative h =>
      have hv : IsIntLiteral c v := ⟨k, bits, negative, h⟩
      simp [ite_eq_ok_iff, ih, hv]
      grind
    next h =>
      simp only [throw_ne_ok, false_iff]
      rintro ⟨hv, _⟩
      obtain ⟨⟨k, bits, negative, hk⟩, _⟩ := hv v (by simp)
      exact h k bits negative hk

theorem checkSwitch_iff : i.checkSwitch c = .ok () ↔ ∃ scrutinee cases,
    i.operands = scrutinee :: cases ∧ c.types.isIntRef scrutinee.type ∧
      i.targets.length = i.operands.length ∧ checkCases c scrutinee.type 0 [] cases = .ok () := by
  rw [checkSwitch]
  split
  next scrutinee cases h =>
    rw [h, exists_eq_cons_iff]
    simp only [ite_eq_ok_iff, seq_eq_ok_iff, throw_ne_ok]
    grind
  next h => simpa using fun scrutinee cases he => absurd he (h scrutinee cases)

theorem checkRet_iff : i.checkRet types f = .ok () ↔
    if types.lookup f.retType = some .void then i.operands = []
    else ∃ v rest, i.operands = v :: rest ∧ v.type = f.retType := by
  rw [checkRet]
  by_cases hv : types.lookup f.retType = some .void
  · simp [hv, ite_eq_ok_iff]
  · cases h : i.operands with
    | nil => simp [hv]
    | cons v rest => simp [hv, ite_eq_ok_iff]

end TypedIR.Instr
