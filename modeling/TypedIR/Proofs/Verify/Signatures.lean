import Mathlib
import TypedIR.Proofs.Declaration.Mirrors
import TypedIR.Proofs.Verify.Silence

namespace TypedIR

def TypeRegistry.yields (types : TypeRegistry) (t : TypeRef) : List TypeRef :=
  if types.lookup t = some .void then [] else [t]

namespace Instr

variable {types : TypeRegistry} {i : Instr} {m : Module} {f : Func} {n : Nat} {result : TypeRef}
  {params : List TypeRef} {args : List Value}

def yields (i : Instr) : List TypeRef := if i.result.isSome then [i.type] else []

def CallsFunc (i : Instr) (index : Nat) : Prop :=
  i.op = .call ∧ ∃ callee args, i.operands = callee :: args ∧ callee.kind = .global ∧
    callee.isFunction ∧ callee.id = index

/-- A call that passes what the parameters are, and more only if it may, and yields the result. -/
structure Passes (types : TypeRegistry) (i : Instr) (result : TypeRef) (params : List TypeRef)
    (variadic : Bool) : Prop where
  args : params <+: i.operands.tail.map (·.type)
  exact : variadic = false → i.operands.tail.map (·.type) = params
  yields : i.yields = types.yields result

theorem prefix_of_checkArguments (h : checkArguments types n params args = .ok ())
    (hl : params.length ≤ args.length) : params <+: args.map (·.type) := by
  induction args generalizing n params with
  | nil =>
    obtain rfl := List.length_eq_zero_iff.1 (Nat.le_zero.1 hl)
    exact List.prefix_rfl
  | cons a args ih =>
    cases params with
    | nil => exact List.nil_prefix
    | cons p params =>
      simp only [checkArguments, ite_eq_ok_iff, bind_eq_ok_iff, throw_ne_ok, false_and, exists_false,
        and_false, false_or] at h
      obtain rfl := Classical.not_not.1 h.1
      exact List.cons_prefix_cons.2 ⟨rfl, ih h.2 (Nat.le_of_succ_le_succ hl)⟩

theorem CallResult.yields_eq (h : i.CallResult types result) : i.yields = types.yields result := by
  obtain ⟨d, hd, hr⟩ := h
  rw [Instr.yields, TypeRegistry.yields, hd]
  split at hr
  next hv => simp [hv, hr]
  next hv => simp [hv, hr.2, Option.isSome_iff_ne_none, hr.1]

theorem passes_of_checkCall (h : i.checkCall types m = .ok ()) : ∃ callee ∈ i.operands.head?,
    i.checkCallee types m callee = .ok () ∧ ∃ result params variadic,
      types.lookup i.typeOperand = some (.fn result params variadic) ∧
        i.Passes types result params variadic := by
  obtain ⟨callee, args, result, params, variadic, he, -, htype, hcallee, hmin, hmax, hargs, hres⟩ :=
    checkCall_iff.1 h
  have htail : i.operands.tail = args := by rw [he, List.tail_cons]
  have hparams := prefix_of_checkArguments hargs hmin
  have hlen (hv : variadic = false) : (args.map (·.type)).length ≤ params.length := by
    simpa [hv] using hmax
  refine ⟨callee, by simp [he], hcallee, result, params, variadic, htype, ?_⟩
  constructor
  · rw [htail]
    exact hparams
  · intro hv
    rw [htail]
    exact (hparams.eq_of_length_le (hlen hv)).symm
  · exact hres.yields_eq

theorem returned_of_checkRet (h : i.checkRet types f = .ok ()) (hl : i.operands.length ≤ 1) :
    i.operands.map (·.type) = types.yields f.retType := by
  rw [checkRet_iff] at h
  rw [TypeRegistry.yields]
  split at h
  next hv => simp [hv, h]
  next hv =>
    obtain ⟨v, rest, he, ht⟩ := h
    obtain rfl : rest = [] := by simpa [he] using hl
    simp [hv, he, ht]

end Instr

namespace World

variable {w : World} {m k : Nat} {f g : FuncRef} {s t : Site} {certificate : Certificate}

/-- A function that says one thing with all of its fields, and calls of it by its address that agree
with it: with its parameters, and with what it returns. -/
structure CallsAgree (w : World) (m : Nat) (g : FuncRef) : Prop where
  mirrors : (w.func g).Mirrors (w.contextOf m).types
  passes : ∀ f ∈ w.funcRefs m, ∀ s ∈ w.sites f, s.instr.CallsFunc g.index →
    s.instr.Passes (w.contextOf m).types (w.func g).retType ((w.func g).params.map (·.type))
      (w.func g).variadic
  returns : ∀ f ∈ w.funcRefs m, ∀ s ∈ w.sites f, s.instr.CallsFunc g.index →
    ∀ t ∈ w.sites g, t.instr.op = .ret → t.instr.operands.map (·.type) = s.instr.yields

structure PassesType (w : World) (m : Nat) (i : Instr) (g : FuncRef) : Prop where
  mem : g ∈ w.funcRefs m
  passes : ∃ result params variadic,
    (w.contextOf m).types.lookup (w.func g).type = some (.fn result params variadic) ∧
      i.Passes (w.contextOf m).types result params variadic

namespace Verified

variable (h : w.Verified m)
include h

theorem exists_callee (hf : f ∈ w.funcRefs m) (hs : s ∈ w.sites f) {v : Value}
    (hv : v ∈ s.instr.operands) (hk : v.kind = .global) (hfn : v.isFunction) :
    ∃ target, (w.module m).funcs[v.id]? = some target := by
  have hknown := h.known hf hs hv
  simp only [Value.Known, hk, Module.symbolName?, hfn, if_true] at hknown
  cases ht : (w.module m).funcs[v.id]? with
  | none => simp [ht] at hknown
  | some target => exact ⟨target, rfl⟩

theorem passesType (hf : f ∈ w.funcRefs m) (hs : s ∈ w.sites f) (hc : s.instr.CallsFunc k) :
    w.PassesType m s.instr ⟨m, k⟩ := by
  obtain ⟨hop, callee, args, ho, hk, hfn, rfl⟩ := hc
  obtain ⟨target, ht⟩ := h.exists_callee hf hs (ho ▸ List.mem_cons_self) hk hfn
  have hrule := (checkInstr_eq_ok_iff.1 (h.typing f hf s hs)).2.2
  simp only [Instr.checkRule, hop, Opcode.category] at hrule
  obtain ⟨v, hv, hcallee, result, params, variadic, htype, hpasses⟩ := Instr.passes_of_checkCall hrule
  obtain rfl : callee = v := by simpa [ho] using hv
  have htarget : target.type = s.instr.typeOperand := Instr.checkCallee_iff.1 hcallee hk hfn target ht
  refine ⟨mem_funcRefs.2 ⟨rfl, (List.getElem?_eq_some_iff.1 ht).1⟩, result, params, variadic, ?_, hpasses⟩
  rw [func_eq (f := ⟨m, callee.id⟩) ht, htarget, htype]

theorem returned (hf : f ∈ w.funcRefs m) (ht : t ∈ w.sites f) (hop : t.instr.op = .ret) :
    t.instr.operands.map (·.type) = (w.contextOf m).types.yields (w.func f).retType := by
  have hi := checkInstr_eq_ok_iff.1 (h.typing f hf t ht)
  have hshape := Instr.checkShape_iff.1 hi.1
  have hrule := hi.2.2
  simp only [Instr.checkRule, Instr.checkTerminator, hop, Opcode.category] at hrule
  exact Instr.returned_of_checkRet hrule (hshape.max 1 (by rw [hop]; rfl))

theorem callsAgree (hg : g ∈ w.funcRefs m) (hm : (w.func g).Mirrors (w.contextOf m).types) :
    w.CallsAgree m g := by
  obtain ⟨rfl, -⟩ := mem_funcRefs.1 hg
  have hpasses : ∀ f ∈ w.funcRefs g.module, ∀ s ∈ w.sites f, s.instr.CallsFunc g.index →
      s.instr.Passes (w.contextOf g.module).types (w.func g).retType
        ((w.func g).params.map (·.type)) (w.func g).variadic := by
    intro f hf s hs hc
    obtain ⟨result, params, variadic, ht, hp⟩ := (h.passesType hf hs hc).passes
    rw [hm.signature] at ht
    obtain ⟨rfl, rfl, rfl⟩ := TypeDesc.fn.inj (Option.some.inj ht)
    exact hp
  refine ⟨hm, hpasses, fun f hf s hs hc t ht hop => ?_⟩
  rw [(hpasses f hf s hs hc).yields, h.returned hg ht hop]

end Verified

/-- In a verified module all calls by address keep to the types of the functions that they reach, and
all returns to the return types of their functions. That calls and a function agree throughout, then,
is up to the fields of the function, which have to repeat its type. -/
theorem callsAgree_iff_of_verify (h : w.verify m = .ok certificate) :
    (∀ f ∈ w.funcRefs m, ∀ s ∈ w.sites f, ∀ k, s.instr.CallsFunc k →
      w.PassesType m s.instr ⟨m, k⟩) ∧
    (∀ f ∈ w.funcRefs m, ∀ t ∈ w.sites f, t.instr.op = .ret →
      t.instr.operands.map (·.type) = (w.contextOf m).types.yields (w.func f).retType) ∧
    ∀ g ∈ w.funcRefs m, w.CallsAgree m g ↔ (w.func g).Mirrors (w.contextOf m).types := by
  have hv := (verify_eq_ok_iff.1 h).1
  exact ⟨fun f hf s hs k => hv.passesType hf hs, fun f hf t => hv.returned hf,
    fun g hg => ⟨(·.mirrors), hv.callsAgree hg⟩⟩

def passesOn (t : TypeRef) : World where
  contexts := [{
    widthLimit := 64, traces := false, modulesMade := 1, funcsMade := 2
    types := ⟨1, 64, false, [.int 32, .int 64, .fn ⟨1, 1⟩ [t] false, .pointer 0, .void]⟩ }]
  modules := [{
    context := 1, name := "m", serial := 1, symbols := [("f", .func 0), ("g", .func 1)]
    funcs := [
      { name := "f", type := ⟨1, 3⟩, retType := ⟨1, 1⟩, params := [⟨t, 0⟩], serial := 1
        moduleSerial := 1, refType := ⟨1, 4⟩, temps := [⟨t, ""⟩, ⟨⟨1, 1⟩, "x"⟩]
        blocks := BlockList.empty.push ⟨"entry", some ⟨0, 0⟩, [
          { op := .call, type := ⟨1, 1⟩, result := some 1, typeOperand := ⟨1, 3⟩
            operands := [.global ⟨1, 4⟩ 1 1 true, .param t 0 1] },
          { op := .ret, type := ⟨1, 5⟩, operands := [.result ⟨1, 1⟩ 1 1] }]⟩ },
      { name := "g", type := ⟨1, 3⟩, retType := t, params := [⟨t, 0⟩], serial := 2
        moduleSerial := 1, index := 1, refType := ⟨1, 4⟩, temps := [⟨t, ""⟩]
        blocks := BlockList.empty.push ⟨"entry", some ⟨0, 1⟩, [
          { op := .ret, type := ⟨1, 5⟩, operands := [.param t 0 2] }]⟩ }] }]

theorem verify_passesOn_i32 : (passesOn ⟨1, 1⟩).verify 0 = .ok ((passesOn ⟨1, 1⟩).certificate 0) :=
  verify_eq_ok_iff.2 ⟨violations_eq_nil_iff.1 (by cbv), rfl⟩

theorem verify_passesOn_i64 : (passesOn ⟨1, 2⟩).verify 0 = .ok ((passesOn ⟨1, 2⟩).certificate 0) :=
  verify_eq_ok_iff.2 ⟨violations_eq_nil_iff.1 (by cbv), rfl⟩

theorem exists_callsFunc_passesOn {t : TypeRef} : ∃ s ∈ (passesOn t).sites ⟨0, 0⟩,
    s.instr.CallsFunc 1 ∧ s.instr.yields = [⟨1, 1⟩] :=
  ⟨_, List.mem_cons_self, ⟨rfl, _, _, rfl, rfl, rfl, rfl⟩, rfl⟩

theorem callsAgree_passesOn :
    (passesOn ⟨1, 1⟩).verify 0 = .ok ((passesOn ⟨1, 1⟩).certificate 0) ∧
    (∃ s ∈ (passesOn ⟨1, 1⟩).sites ⟨0, 0⟩, s.instr.CallsFunc 1) ∧
    ∀ g ∈ (passesOn ⟨1, 1⟩).funcRefs 0, (passesOn ⟨1, 1⟩).CallsAgree 0 g := by
  obtain ⟨s, hs, hc, -⟩ := exists_callsFunc_passesOn (t := ⟨1, 1⟩)
  refine ⟨verify_passesOn_i32, ⟨s, hs, hc⟩, fun g hg => ?_⟩
  have hsignature : ∀ g ∈ (passesOn ⟨1, 1⟩).funcRefs 0,
      ((passesOn ⟨1, 1⟩).contextOf 0).types.lookup ((passesOn ⟨1, 1⟩).func g).type =
        some (.fn ((passesOn ⟨1, 1⟩).func g).retType
          (((passesOn ⟨1, 1⟩).func g).params.map (·.type)) ((passesOn ⟨1, 1⟩).func g).variadic) := by
    decide
  have htemps : ∀ g ∈ (passesOn ⟨1, 1⟩).funcRefs 0,
      ((passesOn ⟨1, 1⟩).func g).params.map (·.type) <+:
        ((passesOn ⟨1, 1⟩).func g).temps.map (·.type) := by decide
  exact ((callsAgree_iff_of_verify verify_passesOn_i32).2.2 g hg).2 ⟨hsignature g hg, htemps g hg⟩

theorem not_callsAgree_of_verify :
    (¬ ∀ (w : World) (m : Nat) (c : Certificate) (g : FuncRef), w.verify m = .ok c →
      g ∈ w.funcRefs m → (w.func g).Mirrors (w.contextOf m).types) ∧
    ¬ ∀ (w : World) (m : Nat) (c : Certificate) (f g : FuncRef), w.verify m = .ok c →
      f ∈ w.funcRefs m → g ∈ w.funcRefs m → ∀ s ∈ w.sites f, s.instr.CallsFunc g.index →
        ∀ t ∈ w.sites g, t.instr.op = .ret → t.instr.operands.map (·.type) = s.instr.yields := by
  constructor
  · intro h
    have hm := (h (passesOn ⟨1, 2⟩) 0 _ ⟨0, 1⟩ verify_passesOn_i64 (by decide)).signature
    exact absurd hm (by decide)
  · intro h
    obtain ⟨s, hs, hc, hyields⟩ := exists_callsFunc_passesOn (t := ⟨1, 2⟩)
    obtain ⟨t, ht, hop, htypes⟩ : ∃ t ∈ (passesOn ⟨1, 2⟩).sites ⟨0, 1⟩,
        t.instr.op = .ret ∧ t.instr.operands.map (·.type) = [⟨1, 2⟩] := by decide
    have he := h (passesOn ⟨1, 2⟩) 0 _ ⟨0, 0⟩ ⟨0, 1⟩ verify_passesOn_i64 (by decide) (by decide)
      s hs hc t ht hop
    exact absurd ((htypes.symm.trans he).trans hyields) (by decide)

theorem Reachable.callsAgree (hr : w.Reachable) (h : w.verify m = .ok certificate)
    (hg : g ∈ w.funcRefs m) : w.CallsAgree m g := by
  have hv := (verify_eq_ok_iff.1 h).1
  obtain ⟨fn, hfn⟩ := func?_of_mem_funcRefs hg
  obtain ⟨rfl, -⟩ := mem_funcRefs.1 hg
  apply hv.callsAgree hg
  rw [func_eq hfn]
  exact hr.mirrors hfn hv.alive

end World

end TypedIR
