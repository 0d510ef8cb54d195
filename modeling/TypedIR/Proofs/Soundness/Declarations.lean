import TypedIR.Proofs.Declaration.Calls
import TypedIR.Proofs.Soundness.Functions

namespace TypedIR

namespace TypeRequest

variable {r r' : TypeRegistry} {t : TypeRef}

theorem after_pointer (h : pointer 0 r = .ok t r') : r' = after (pointer 0) r := by
  simp [after, h]

theorem owns_pointer (h : pointer 0 r = .ok t r') : r'.owns t :=
  TypeRegistry.owns_iff.2 ⟨_, lookup_of_make h⟩

theorem of_pointer (h : pointer 0 r = .ok t r') : r.Grows r' ∧ (r.Closed → r'.Closed) := by
  have hk : Keeps (pointer 0) := keeps_make rfl
  rw [after_pointer h]
  exact ⟨hk.grows _, hk.closed _⟩

end TypeRequest

structure Func.Bare (fn : Func) : Prop where
  blocks : fn.blocks = .empty
  temps : fn.temps.length = fn.params.length
  unnamed : ∀ t ∈ fn.temps, t.name = ""
  labelUses : fn.labelUses = {}
  tempUses : fn.tempUses = {}

theorem Module.bare_newFunc (m : Module) (name : String) (signature : TypeRef) (linkage : Linkage)
    (serial : Nat) (refType result : TypeRef) (params : List TypeRef) (variadic : Bool) :
    (m.newFunc name signature linkage serial refType result params variadic).Bare := by
  rw [newFunc_eq]
  exact ⟨rfl, by simp, by simp, rfl, rfl⟩

structure Func.TypesOwned (types : TypeRegistry) (fn : Func) : Prop where
  signature : types.owns fn.type
  result : types.owns fn.retType
  temps : ∀ t ∈ fn.temps, types.owns t.type

theorem Func.Bare.get? {fn : Func} (h : fn.Bare) (id : Nat) : fn.blocks.get? id = none := by
  simp [h.blocks, BlockList.empty, BlockList.get?]

namespace World

variable {w : World} {m : Nat} {f : FuncRef} {fn : Func} {x : Module}

theorem funcSound_of_bare (hf : w.func? f = some fn) (hb : fn.Bare)
    (ho : fn.TypesOwned (w.contextOf f.module).types) : w.FuncSound f := by
  have he : w.func f = fn := func_eq hf
  constructor
  · rw [he]
    exact ho.signature
  · rw [he]
    exact ho.result
  · rw [he]
    exact ho.temps
  · intro _
    rw [he, Func.isDeclaration, hb.blocks]
    rfl
  · exact Nat.le_of_eq (by rw [he, hb.temps])
  · rw [he, hb.temps, Func.results, hb.blocks]
    simp [BlockList.empty]
  · rw [he]
    intro id y hy
    simp [hb.get?] at hy
  · rw [he]
    intro id y hy
    simp [hb.get?] at hy

theorem advances_setModule (hm : m < w.modules.length) (hg : (w.module m).Grows x)
    (hfuncs : ∀ (i : Nat) fn, x.funcs[i]? = some fn → (w.module m).funcs[i]? = some fn ∨
      fn.Bare ∧ (w.Tidy → (w.contextOf m).isDisposed = false →
        fn.TypesOwned (w.contextOf m).types))
    (hglobals : (w.contextOf m).isDisposed = false →
      ∀ g ∈ x.globals, g ∈ (w.module m).globals ∨ GlobalTypes (w.contextOf m).types g) :
    w.Advances (w.setModule m x) := by
  have hgrows : w.Grows (w.setModule m x) := grows_setModule hg
  have hcontext (k : Nat) : (w.setModule m x).contextOf k = w.contextOf k := by
    rw [contextOf, module_setModule w hm, context_setModule]
    split
    next h => rw [h, hg.context, contextOf]
    next => rfl
  have hold {f : FuncRef} {fn : Func} (hf : (w.setModule m x).func? f = some fn) :
      w.func? f = some fn ∨ f.module = m ∧ fn.Bare ∧ (w.Tidy →
        (w.contextOf m).isDisposed = false → fn.TypesOwned (w.contextOf m).types) := by
    rw [func?, module_setModule w hm] at hf
    split at hf
    next h =>
      rcases hfuncs _ _ hf with hf | hf
      · exact .inl (by rw [func?, h, hf])
      · exact .inr ⟨h, hf⟩
    next => exact .inl hf
  refine ⟨hgrows, fun ht => ht.setModule hg.context fun i fn hf id y hy => ?_, fun ht hs => ⟨?_, ?_⟩⟩
  · rcases hfuncs i fn hf with hf | ⟨hbare, _⟩
    · exact ht.blocks ⟨⟨m, i⟩, id⟩ y (by rwa [block?, func_eq (f := ⟨m, i⟩) hf])
    · simp [hbare.get?] at hy
  · intro f fn hf hl
    rw [hcontext] at hl
    rcases hold hf with hf' | ⟨rfl, hbare, howned⟩
    · exact (hs.funcs f fn hf' hl).mono hgrows ht hf' hf (by rwa [hcontext])
    · exact funcSound_of_bare hf hbare (by rw [hcontext]; exact howned ht hl)
  · intro k hl g hgl
    rw [hcontext] at hl ⊢
    rw [module_setModule w hm] at hgl
    split at hgl
    next h =>
      subst h
      rcases hglobals hl g hgl with hgl | hgl
      · exact hs.globals k hl g hgl
      · exact hgl
    next => exact hs.globals k hl g hgl

theorem advances_declared {d : Declared} (hl : (w.contextOf m).isDisposed = false)
    (hc : (w.contextOf m).Grows d.context)
    (hclosed : (w.contextOf m).types.Closed → d.context.types.Closed)
    (hm : ∀ w' : World, w'.module m = w.module m → w'.contextOf m = d.context →
      m < w'.modules.length → w'.Advances (w'.setModule m d.module)) :
    w.Advances (w.declared m d) := by
  have hmodules : (w.setContext (w.module m).context d.context).modules = w.modules :=
    modules_setContext w _ _
  have hmade : 0 < (w.module m).context ∧ (w.module m).context ≤ w.contexts.length := valid_of_live hl
  have hset : (w.setContext (w.module m).context d.context).contextOf m = d.context := by
    rw [contextOf, module_congr hmodules, context_setContext, if_pos ⟨rfl, hmade⟩]
  have hstep := (advances_setContext_of_grows hc hclosed).trans
    (hm _ (module_congr hmodules m) hset (hmodules ▸ lt_of_live hl))
  rw [declared]
  split
  · exact hstep
  · exact hstep.trans (advances_trace _ _ _)

theorem advances_declareFunc {name : String} {signature : TypeRef} {linkage : Linkage} {d : Declared}
    (hl : (w.contextOf m).isDisposed = false)
    (hd : (w.module m).DeclaresFunc (w.contextOf m) name signature linkage d) :
    w.Advances (w.declared m d) := by
  cases hd with
  | found =>
    refine advances_declared hl (.refl _) id fun w' hmod _ hlt => ?_
    rw [← hmod]
    exact advances_setModule hlt (.refl _) (fun _ _ h => .inl h) fun _ _ h => .inl h
  | @made result params variadic refType types _ _ _ hs ha =>
    obtain ⟨hgrows, hclosed⟩ := TypeRequest.of_pointer ha
    refine advances_declared hl ⟨hgrows, .refl _⟩ hclosed fun w' hmod hcontext hlt => ?_
    rw [← hmod]
    refine advances_setModule hlt ⟨⟨rfl, rfl, fun i fn h => ?_⟩, fun i g h => ⟨g, h, rfl⟩⟩
      (fun i fn h => ?_) fun _ _ h => .inl h
    · exact ⟨fn, by simpa [List.getElem?_append_left (List.getElem?_eq_some_iff.1 h).1] using h,
        .refl fn⟩
    · rw [List.getElem?_append] at h
      split at h
      · exact .inl h
      · have h := List.mem_singleton.1 (List.mem_of_getElem? h)
        subst h
        have hsig : (w'.contextOf m).types.lookup signature = some (.fn result params variadic) := by
          rw [hcontext]
          exact hgrows.lookup_of_not_isNamed hs rfl
        refine .inr ⟨Module.bare_newFunc .., fun ht hlive => ?_⟩
        rw [Module.newFunc_eq]
        have hparts := ht.closed _ hlive signature _ hsig
        refine ⟨TypeRegistry.owns_iff.2 ⟨_, hsig⟩, hparts result (by simp [TypeDesc.parts]), ?_⟩
        intro t ht
        obtain ⟨p, hp, rfl⟩ := List.mem_map.1 ht
        exact hparts p (by simp [TypeDesc.parts, hp])

theorem advances_declareGlobal {name : String} {type : TypeRef} {init : Option Value}
    {isConstant : Bool} {linkage : Linkage} {d : Declared}
    (hl : (w.contextOf m).isDisposed = false) (ho : (w.contextOf m).types.owns type)
    (hd : (w.module m).DeclaresGlobal (w.contextOf m) name type init isConstant linkage d) :
    w.Advances (w.declared m d) := by
  cases hd with
  | found =>
    refine advances_declared hl (.refl _) id fun w' hmod _ hlt => ?_
    rw [← hmod]
    exact advances_setModule hlt (.refl _) (fun _ _ h => .inl h) fun _ _ h => .inl h
  | @defined index v _ _ ht _ _ hv =>
    refine advances_declared hl (.refl _) id fun w' hmod hcontext hlt => ?_
    rw [← hmod] at ht ⊢
    refine advances_setModule hlt ⟨⟨rfl, rfl, fun i fn h => ⟨fn, h, .refl fn⟩⟩, fun i x hx => ?_⟩
      (fun _ _ h => .inl h) fun _ x hx => ?_
    · rw [List.getElem?_set]
      split
      next he =>
        rw [he, if_pos (List.getElem?_eq_some_iff.1 hx).1]
        exact ⟨_, rfl, by simp [hx, Global.ref]⟩
      next => exact ⟨x, hx, rfl⟩
    · rcases List.mem_or_eq_of_mem_set hx with hx | rfl
      · exact .inl hx
      · have howns : (w'.contextOf m).types.owns type := by rwa [hcontext]
        refine .inr ⟨ht ▸ howns, fun u hu => ?_⟩
        rw [← Option.some.inj hu, hv.type]
        exact howns
  | made _ _ hv ha =>
    obtain ⟨hgrows, hclosed⟩ := TypeRequest.of_pointer ha
    refine advances_declared hl ⟨hgrows, .refl _⟩ hclosed fun w' hmod hcontext hlt => ?_
    rw [← hmod]
    refine advances_setModule hlt ⟨⟨rfl, rfl, fun i fn h => ⟨fn, h, .refl fn⟩⟩, fun i x hx => ?_⟩
      (fun _ _ h => .inl h) fun _ x hx => ?_
    · exact ⟨x, by simpa [List.getElem?_append_left (List.getElem?_eq_some_iff.1 hx).1] using hx, rfl⟩
    · rcases List.mem_append.1 hx with hx | hx
      · exact .inl hx
      · obtain rfl := List.mem_singleton.1 hx
        have howns : (w'.contextOf m).types.owns type := by
          rw [hcontext]
          exact hgrows.owns ho
        refine .inr ⟨howns, fun u hu => ?_⟩
        rw [(hv u hu).type]
        exact howns

end World

end TypedIR
