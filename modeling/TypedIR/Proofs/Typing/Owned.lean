import TypedIR.Proofs.Typing.Operands
import TypedIR.Proofs.Typing.Judgment
import TypedIR.Proofs.Verify.Silence

namespace TypedIR

namespace TypeRegistry

variable {r : TypeRegistry} {t : TypeRef}

theorem owns_of_any_lookup {p : TypeDesc → Bool} (h : (r.lookup t).any p) : r.owns t := by
  obtain ⟨d, hd, _⟩ := (Option.any_eq_true _ _).1 h
  exact owns_iff.2 ⟨d, hd⟩

theorem owns_of_scalar? {d : TypeDesc} (h : r.scalar? t = some d) : r.owns t := by
  cases hl : r.lookup t with
  | none => simp [scalar?, hl] at h
  | some e => exact owns_iff.2 ⟨e, hl⟩

end TypeRegistry

namespace Instr

variable {c : Context} {m : Module} {f : Func} {i : Instr}

theorem owns_type_of_checkRule (ho : ∀ v ∈ i.operands, c.types.owns v.type)
    (ha : i.op.resultArity = .always) (h : i.checkRule c m f = .ok ()) : c.types.owns i.type := by
  simp only [checkRule] at h
  cases hcat : i.op.category with
  | intBinary =>
    simp only [hcat, checkIntBinary_iff] at h
    obtain ⟨a, b, rest, hops, _, _, hr⟩ := h
    exact hr ▸ ho a (by simp [hops])
  | floatBinary | floatUnary =>
    simp only [hcat, checkFloatArith_iff] at h
    obtain ⟨a, rest, hops, _, _, hr⟩ := h
    exact hr ▸ ho a (by simp [hops])
  | compare =>
    simp only [hcat, checkCompare_iff] at h
    obtain ⟨a, b, rest, _, _, _, hr, _⟩ := h
    exact TypeRegistry.owns_of_scalar? hr
  | cast =>
    simp only [hcat, checkCast_iff] at h
    obtain ⟨a, rest, source, target, _, _, ht, _⟩ := h
    exact TypeRegistry.owns_iff.2 ⟨target, ht⟩
  | memory =>
    simp only [hcat, checkMemory] at h
    cases hop : i.op with
    | alloca =>
      simp only [hop, checkAlloca_iff] at h
      exact TypeRegistry.owns_of_any_lookup h.2.1
    | load =>
      simp only [hop, checkLoad_iff] at h
      obtain ⟨p, rest, _, _, hs⟩ := h
      exact TypeRegistry.owns_of_any_lookup hs
    | store => simp [hop, Opcode.resultArity] at ha
    | _ => simp [hop] at h
  | call =>
    cases hop : i.op <;> simp_all [Opcode.category, Opcode.resultArity]
  | select =>
    simp only [hcat, checkSelect_iff] at h
    obtain ⟨v, a, b, rest, hops, _, _, _, _, hr⟩ := h
    exact hr ▸ ho a (by simp [hops])
  | phi =>
    simp only [hcat, checkPhi_iff] at h
    exact TypeRegistry.owns_of_any_lookup h.1
  | terminator =>
    cases hop : i.op <;> simp_all [Opcode.category, Opcode.resultArity]

theorem owns_typeOperand_of_checkRule (hn : i.op.needsTypeOperand)
    (h : i.checkRule c m f = .ok ()) : c.types.owns i.typeOperand := by
  cases hop : i.op with
  | alloca =>
    simp only [checkRule, hop, Opcode.category, checkMemory, checkAlloca_iff] at h
    exact TypeRegistry.owns_of_any_lookup h.1
  | call =>
    simp only [checkRule, hop, Opcode.category, checkCall_iff] at h
    obtain ⟨_, _, result, params, variadic, _, _, hl, _⟩ := h
    exact TypeRegistry.owns_iff.2 ⟨_, hl⟩
  | _ => simp [hop, Opcode.needsTypeOperand] at hn

/-- The types that no rule looks at: a result type where there may be no result, and a type operand
where none is needed. -/
structure RestTypes (types : TypeRegistry) (i : Instr) : Prop where
  result : i.op.resultArity = .always ∨ types.owns i.type
  operand : i.op.needsTypeOperand ∨ i.typeOperand.isValid = false

theorem instrTypes_of_checkRule (ho : ∀ v ∈ i.operands, checkOperand c m f v = .ok ())
    (ht : i.RestTypes c.types) (h : i.checkRule c m f = .ok ()) : World.InstrTypes c.types i := by
  have ho : ∀ v ∈ i.operands, c.types.owns v.type := fun v hv => (checkOperand_iff.1 (ho v hv)).1
  refine ⟨?_, fun hop => ?_, ho⟩
  · rcases ht.result with ha | ht
    · exact owns_type_of_checkRule ho ha h
    · exact ht
  · rcases ht.operand with hn | hv
    · exact owns_typeOperand_of_checkRule hn h
    · rcases hop with hn | hvalid
      · exact owns_typeOperand_of_checkRule hn h
      · simp [hv] at hvalid

end Instr

end TypedIR
