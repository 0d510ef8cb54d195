import TypedIR.Proofs.Typing.Judgment
import TypedIR.Proofs.Typing.Operands
import TypedIR.Proofs.Verify.Silence

namespace TypedIR

namespace TypeDesc

variable {d : TypeDesc}

theorem isNamed_of_isInt (h : d.isInt) : d.isNamed = false := by
  cases d <;> first | rfl | exact nomatch h

theorem isNamed_of_isFloat (h : d.isFloat) : d.isNamed = false := by
  cases d <;> first | rfl | exact nomatch h

theorem isNamed_of_isPointer (h : d.isPointer) : d.isNamed = false := by
  cases d <;> first | rfl | exact nomatch h

end TypeDesc

namespace TypeRegistry

variable {r r' : TypeRegistry} {t : TypeRef} {d : TypeDesc}

theorem scalar?_of_not_vector (h : r.lookup t = some d)
    (hd : ∀ elem count, d ≠ .vector elem count) : r.scalar? t = some d := by
  rw [scalar?, h]
  cases d <;> simp_all

namespace Grows

theorem scalar? (h : r.Grows r') (hd : r.scalar? t = some d) (hn : d.isNamed = false) :
    r'.scalar? t = some d := by
  cases hl : r.lookup t with
  | none => simp [TypeRegistry.scalar?, hl] at hd
  | some e =>
    by_cases hv : ∃ elem count, e = .vector elem count
    · obtain ⟨elem, count, rfl⟩ := hv
      simp only [TypeRegistry.scalar?, hl] at hd
      simp only [TypeRegistry.scalar?, h.lookup_of_not_isNamed hl rfl,
        h.lookup_of_not_isNamed hd hn]
    · have he : ∀ elem count, e ≠ .vector elem count := fun elem count hc => hv ⟨elem, count, hc⟩
      obtain rfl : e = d := Option.some.inj ((scalar?_of_not_vector hl he).symm.trans hd)
      exact scalar?_of_not_vector (h.lookup_of_not_isNamed hl hn) he

theorem scalar?_any (h : r.Grows r') {p : TypeDesc → Bool} (hp : ∀ d, p d → d.isNamed = false)
    (ht : (r.scalar? t).any p) : (r'.scalar? t).any p := by
  obtain ⟨d, hd, hpd⟩ := (Option.any_eq_true _ _).1 ht
  rw [h.scalar? hd (hp d hpd)]
  exact hpd

theorem isPointerRef (h : r.Grows r') (ht : r.isPointerRef t) : r'.isPointerRef t := by
  obtain ⟨d, hd, hp⟩ := (Option.any_eq_true _ _).1 ht
  rw [TypeRegistry.isPointerRef, h.lookup_of_not_isNamed hd (TypeDesc.isNamed_of_isPointer hp)]
  exact hp

theorem isIntRef (h : r.Grows r') (ht : r.isIntRef t) : r'.isIntRef t := by
  obtain ⟨d, hd, hp⟩ := (Option.any_eq_true _ _).1 ht
  rw [TypeRegistry.isIntRef, h.lookup_of_not_isNamed hd (TypeDesc.isNamed_of_isInt hp)]
  exact hp

theorem lanes (h : r.Grows r') (ht : r.owns t) : r'.lanes t = r.lanes t := by
  obtain ⟨d, hd⟩ := owns_iff.1 ht
  obtain ⟨d', hd', hr⟩ := h.lookup t d hd
  rw [TypeRegistry.lanes, TypeRegistry.lanes, hd, hd']
  cases hr <;> rfl

theorem bitWidth (h : r.Grows r') (hr : r.Closed) (ht : r.owns t) :
    r'.bitWidth t = r.bitWidth t := by
  obtain ⟨d, hd⟩ := owns_iff.1 ht
  obtain ⟨d', hd', href⟩ := h.lookup t d hd
  rw [TypeRegistry.bitWidth, TypeRegistry.bitWidth, hd, hd']
  cases href with
  | body => rfl
  | refl =>
    cases d with
    | vector elem count =>
      obtain ⟨e, he⟩ := owns_iff.1 (hr t _ hd elem (by simp [TypeDesc.parts]))
      obtain ⟨e', he', href⟩ := h.lookup elem e he
      simp only [he, he']
      cases href <;> rfl
    | _ => rfl

end Grows

end TypeRegistry

namespace Instr

theorem castAllowed_refines {op : Opcode} {s s' t t' : TypeDesc} {n k : UInt64}
    (hs : s.Refines s') (ht : t.Refines t') (h : castAllowed op s t n k) :
    castAllowed op s' t' n k := by
  cases hs with
  | refl =>
    cases ht with
    | refl => exact h
    | body name body =>
      cases op <;> cases s <;> exact h
  | body name body =>
    cases ht with
    | refl => cases op <;> cases t <;> exact h
    | body => cases op <;> exact h

theorem checkArguments_mono {types types' : TypeRegistry} (h : types.Grows types') {n : Nat}
    {params : List TypeRef} {args : List Value}
    (ha : checkArguments types n params args = .ok ()) :
    checkArguments types' n params args = .ok () := by
  induction args generalizing n params with
  | nil => cases params <;> exact ha
  | cons a args ih =>
    cases params with
    | nil =>
      simp only [checkArguments, ite_eq_ok_iff, bind_eq_ok_iff, throw_ne_ok, false_and, exists_false,
        and_false, or_false] at ha ⊢
      exact ⟨h.isSized ha.1, ih ha.2⟩
    | cons p params =>
      simp only [checkArguments, ite_eq_ok_iff, bind_eq_ok_iff, throw_ne_ok, false_and, exists_false,
        and_false, false_or] at ha ⊢
      exact ⟨ha.1, ih ha.2⟩

theorem CallResult.mono {types types' : TypeRegistry} {i : Instr} {result : TypeRef}
    (hr : i.CallResult types result) (h : types.Grows types') : i.CallResult types' result := by
  obtain ⟨d, hd, hc⟩ := hr
  obtain ⟨d', hd', href⟩ := h.lookup result d hd
  refine ⟨d', hd', ?_⟩
  cases href with
  | refl => exact hc
  | body => simpa using hc

section Rules

variable {c c' : Context} {m m' : Module} {f f' : Func} {i : Instr}

theorem checkCallee_mono {types types' : TypeRegistry} {callee : Value} (hm : m.RecallsFuncs m')
    (ho : checkOperand c m f callee = .ok ()) (h : i.checkCallee types m callee = .ok ()) :
    i.checkCallee types' m' callee = .ok () := by
  rw [checkCallee_iff] at h ⊢
  intro hk hf target' ht'
  have hs := (checkOperand_iff.1 ho).2
  simp only [Value.Known, hk, Module.symbolName?_isSome_iff, hf, if_true] at hs
  obtain ⟨target, ht, _⟩ := hs.2.2
  obtain ⟨target'', ht'', _, hty⟩ := hm.funcs callee.id target ht
  obtain rfl : target'' = target' := Option.some.inj (ht''.symm.trans ht')
  rw [hty]
  exact h hk hf target ht

theorem checkCompare_mono (hc : c.Grows c') (hi : World.InstrTypes c.types i)
    (h : i.checkCompare c.types = .ok ()) : i.checkCompare c'.types = .ok () := by
  rw [checkCompare_iff] at h ⊢
  obtain ⟨a, b, rest, ho, hab, hp, hr, hl⟩ := h
  have ha : c.types.owns a.type := hi.operands a (by simp [ho])
  refine ⟨a, b, rest, ho, hab, ?_, hc.types.scalar? hr rfl, ?_⟩
  · split
    next hop =>
      rw [if_pos hop] at hp
      refine ⟨hc.types.scalar?_any (fun d hd => ?_) hp.1, hp.2⟩
      rcases Bool.or_eq_true_iff.1 hd with hd | hd
      · exact TypeDesc.isNamed_of_isInt hd
      · exact TypeDesc.isNamed_of_isPointer hd
    next hop =>
      rw [if_neg hop] at hp
      exact ⟨hc.types.scalar?_any (fun _ => TypeDesc.isNamed_of_isFloat) hp.1, hp.2⟩
  · rw [hc.types.lanes hi.result, hc.types.lanes ha, hl]

theorem checkCast_mono (hc : c.Grows c') (hr : c.types.Closed) (hi : World.InstrTypes c.types i)
    (h : i.checkCast c.types = .ok ()) : i.checkCast c'.types = .ok () := by
  rw [checkCast_iff] at h ⊢
  obtain ⟨a, rest, source, target, ho, hs, ht, hcast⟩ := h
  obtain ⟨source', hs', hss⟩ := hc.types.lookup _ _ hs
  obtain ⟨target', ht', htt⟩ := hc.types.lookup _ _ ht
  refine ⟨a, rest, source', target', ho, hs', ht', ?_⟩
  rw [hc.types.bitWidth hr (hi.operands a (by simp [ho])), hc.types.bitWidth hr hi.result]
  exact castAllowed_refines hss htt hcast

theorem checkMemory_mono (hc : c.Grows c') (h : i.checkMemory c.types = .ok ()) :
    i.checkMemory c'.types = .ok () := by
  simp only [checkMemory] at h ⊢
  cases hop : i.op with
  | alloca =>
    simp only [hop, checkAlloca_iff] at h ⊢
    exact ⟨hc.types.isSized h.1, hc.types.isPointerRef h.2.1,
      fun count hcount => hc.types.isIntRef (h.2.2 count hcount)⟩
  | load =>
    simp only [hop, checkLoad_iff] at h ⊢
    obtain ⟨p, rest, ho, hp, hs⟩ := h
    exact ⟨p, rest, ho, hc.types.isPointerRef hp, hc.types.isSized hs⟩
  | store =>
    simp only [hop, checkStore_iff] at h ⊢
    obtain ⟨v, p, rest, ho, hp, hs⟩ := h
    exact ⟨v, p, rest, ho, hc.types.isPointerRef hp, hc.types.isSized hs⟩
  | _ => simp [hop] at h

theorem checkCall_mono (hc : c.Grows c') (hm : m.RecallsFuncs m')
    (ho : ∀ v ∈ i.operands, checkOperand c m f v = .ok ()) (h : i.checkCall c.types m = .ok ()) :
    i.checkCall c'.types m' = .ok () := by
  rw [checkCall_iff] at h ⊢
  obtain ⟨callee, args, result, params, variadic, hops, hp, hsig, hcallee, hmin, hmax, hargs, hres⟩ := h
  exact ⟨callee, args, result, params, variadic, hops, hc.types.isPointerRef hp,
    hc.types.lookup_of_not_isNamed hsig rfl, checkCallee_mono hm (ho callee (by simp [hops])) hcallee,
    hmin, hmax, checkArguments_mono hc.types hargs, hres.mono hc.types⟩

theorem checkSelect_mono (hc : c.Grows c') (hi : World.InstrTypes c.types i)
    (h : i.checkSelect c.types = .ok ()) : i.checkSelect c'.types = .ok () := by
  rw [checkSelect_iff] at h ⊢
  obtain ⟨v, a, b, rest, ho, hv, hl, hab, hs, hr⟩ := h
  refine ⟨v, a, b, rest, ho, hc.types.scalar? hv rfl, ?_, hab, hc.types.isSized hs, hr⟩
  rwa [hc.types.lanes (hi.operands v (by simp [ho])), hc.types.lanes (hi.operands a (by simp [ho]))]

theorem checkCases_mono (hc : c.Grows c') {t : TypeRef} {vs : List Value}
    (h : checkCases c t 0 [] vs = .ok ()) : checkCases c' t 0 [] vs = .ok () := by
  rw [checkCases_iff] at h ⊢
  refine ⟨fun v hv => ?_, h.2⟩
  obtain ⟨⟨k, bits, negative, hk⟩, hrest⟩ := h.1 v hv
  exact ⟨⟨k, bits, negative, hc.lookupConstant hk⟩, hrest⟩

theorem owns_of_checkRet (hv : ∀ v ∈ i.operands, c.types.owns v.type)
    (h : i.checkRet c.types f = .ok ()) : c.types.owns f.retType := by
  rw [checkRet_iff] at h
  split at h
  next hvoid => exact TypeRegistry.owns_iff.2 ⟨_, hvoid⟩
  next =>
    obtain ⟨v, rest, hops, ht⟩ := h
    exact ht ▸ hv v (by simp [hops])

theorem checkRet_mono (hc : c.Grows c') (hret : f'.retType = f.retType)
    (howns : c.types.owns f.retType) (h : i.checkRet c.types f = .ok ()) :
    i.checkRet c'.types f' = .ok () := by
  rw [checkRet_iff] at h ⊢
  rw [hret]
  obtain ⟨d, hd⟩ := TypeRegistry.owns_iff.1 howns
  obtain ⟨d', hd', href⟩ := hc.types.lookup _ _ hd
  rw [hd] at h
  rw [hd']
  cases href with
  | refl => exact h
  | body => simpa using h

theorem checkTerminator_mono (hc : c.Grows c')
    (hret : i.op = .ret → i.checkRet c.types f = .ok () → i.checkRet c'.types f' = .ok ())
    (h : i.checkTerminator c f = .ok ()) : i.checkTerminator c' f' = .ok () := by
  simp only [checkTerminator] at h ⊢
  cases hop : i.op with
  | br | unreachable => simp
  | condbr =>
    simp only [hop, checkCondition_iff] at h ⊢
    obtain ⟨v, rest, ho, hv⟩ := h
    exact ⟨v, rest, ho, hc.types.lookup_of_not_isNamed hv rfl⟩
  | switch =>
    simp only [hop, checkSwitch_iff] at h ⊢
    obtain ⟨scrutinee, cases, ho, hs, hl, hcases⟩ := h
    exact ⟨scrutinee, cases, ho, hc.types.isIntRef hs, hl, checkCases_mono hc hcases⟩
  | ret =>
    simp only [hop] at h ⊢
    exact hret hop h
  | _ => simp [hop] at h

theorem checkRule_mono (hc : c.Grows c') (hr : c.types.Closed) (hm : m.RecallsFuncs m')
    (hret : i.op = .ret → i.checkRet c.types f = .ok () → i.checkRet c'.types f' = .ok ())
    (ho : ∀ v ∈ i.operands, checkOperand c m f v = .ok ()) (hi : World.InstrTypes c.types i)
    (h : i.checkRule c m f = .ok ()) : i.checkRule c' m' f' = .ok () := by
  simp only [checkRule] at h ⊢
  cases hcat : i.op.category with
  | intBinary =>
    simp only [hcat, checkIntBinary_iff] at h ⊢
    obtain ⟨a, b, rest, hops, hab, ha, hr⟩ := h
    exact ⟨a, b, rest, hops, hab, hc.types.scalar?_any (fun _ => TypeDesc.isNamed_of_isInt) ha, hr⟩
  | floatBinary | floatUnary =>
    simp only [hcat, checkFloatArith_iff] at h ⊢
    obtain ⟨a, rest, hops, hab, ha, hr⟩ := h
    exact ⟨a, rest, hops, hab, hc.types.scalar?_any (fun _ => TypeDesc.isNamed_of_isFloat) ha, hr⟩
  | compare =>
    simp only [hcat] at h ⊢
    exact checkCompare_mono hc hi h
  | cast =>
    simp only [hcat] at h ⊢
    exact checkCast_mono hc hr hi h
  | memory =>
    simp only [hcat] at h ⊢
    exact checkMemory_mono hc h
  | call =>
    simp only [hcat] at h ⊢
    exact checkCall_mono hc hm ho h
  | select =>
    simp only [hcat] at h ⊢
    exact checkSelect_mono hc hi h
  | phi =>
    simp only [hcat, checkPhi_iff] at h ⊢
    exact ⟨hc.types.isSized h.1, h.2⟩
  | terminator =>
    simp only [hcat] at h ⊢
    exact checkTerminator_mono hc hret h

end Rules

end Instr

end TypedIR
