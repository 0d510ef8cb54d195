import TypedIR.Proofs.Soundness.Contexts
import TypedIR.Proofs.Soundness.Placement

namespace TypedIR.World

variable {w w' : World} {f : FuncRef} {fn fn' : Func} {g : Func → Func}

theorem modifyFunc_of_none (h : w.func? f = none) (g : Func → Func) : w.modifyFunc f g = w := by
  have hm : (w.module f.module).funcs.modify f.index g = (w.module f.module).funcs :=
    List.modify_eq_self (List.getElem?_eq_none_iff.1 h)
  rw [modifyFunc]
  simp only [hm]
  by_cases hf : f.module < w.modules.length
  · have he : w.module f.module = w.modules[f.module] := by simp [module, hf]
    change { w with modules := w.modules.set f.module (w.module f.module) } = w
    rw [he, List.set_getElem_self hf]
  · exact setModule_of_le (Nat.le_of_not_lt hf) _

theorem modifyFunc_congr {g' : Func → Func} (hf : w.func? f = some fn) (h : g fn = g' fn) :
    w.modifyFunc f g = w.modifyFunc f g' := by
  have hm : (w.module f.module).funcs.modify f.index g =
      (w.module f.module).funcs.modify f.index g' := by
    apply List.ext_getElem?
    intro k
    rw [List.getElem?_modify, List.getElem?_modify]
    by_cases hk : f.index = k
    · have hk : (w.module f.module).funcs[k]? = some fn := hk ▸ hf
      simp [hk, h]
    · simp [hk]
  simp only [modifyFunc, hm]

theorem modifyFunc_modifyFunc (w : World) (f : FuncRef) (g g' : Func → Func) :
    (w.modifyFunc f g).modifyFunc f g' = w.modifyFunc f (g' ∘ g) := by
  have hm : (w.modifyFunc f g).module f.module =
      { w.module f.module with funcs := (w.module f.module).funcs.modify f.index g } := by
    rw [module_modifyFunc, if_pos rfl]
  rw [modifyFunc, hm]
  simp [modifyFunc, setModule, List.modify_modify_eq]

@[simp] theorem contextOf_modifyFunc (w : World) (f : FuncRef) (g : Func → Func) (m : Nat) :
    (w.modifyFunc f g).contextOf m = w.contextOf m := by
  rw [contextOf, module_modifyFunc, modifyFunc, context_setModule]
  split <;> rfl

theorem FuncSound.update (hs : w.FuncSound f) (h : w.Grows w') (ht : w.Tidy)
    (hf : w.func? f = some fn) (hf' : w'.func? f = some fn')
    (hl : (w'.contextOf f.module).isDisposed = false)
    (himported : fn'.linkage = .imported → fn'.isDeclaration)
    (htemps : ∀ t ∈ fn'.temps, (w.contextOf f.module).types.owns t.type)
    (hresults : fn'.results.Perm
      (List.range' fn'.params.length (fn'.temps.length - fn'.params.length)))
    (hordered : ∀ id x, fn'.blocks.get? id = some x → x.Ordered)
    (hinstrs : ∀ id x, fn'.blocks.get? id = some x → ∀ i ∈ x.instrs, w.InstrSound f i) :
    w'.FuncSound f := by
  have hg : (w.func f).Grows (w'.func f) := h.func hf
  have hc := (h.contextOf ht (lt_of_func? hf) hl).2
  rw [← func_eq hf'] at himported htemps hresults hordered hinstrs
  constructor
  · rw [hg.type]
    exact hc.types.owns hs.signature
  · rw [hg.retType]
    exact hc.types.owns hs.result
  · exact fun t ht => hc.types.owns (htemps t ht)
  · exact himported
  · have hlen := hg.temps.length_le
    simp only [List.length_map] at hlen
    rw [hg.params]
    exact Nat.le_trans hs.params hlen
  · exact hresults
  · exact hordered
  · exact fun id x hx i hi => (hinstrs id x hx i hi).mono h ht hf hs.result hl

theorem tidy_modifyFunc (ht : w.Tidy)
    (hp : ∀ fn, w.func? f = some fn → ∀ id x, (g fn).blocks.get? id = some x → x.parent = some f) :
    (w.modifyFunc f g).Tidy := by
  refine ht.setModule rfl fun i fn' hfn' id x hx => ?_
  rw [List.getElem?_modify] at hfn'
  obtain ⟨fn, hf, he⟩ := Option.map_eq_some_iff.1 hfn'
  split at he
  next hi =>
    subst hi he
    exact hp fn hf id x hx
  next =>
    subst he
    exact ht.blocks ⟨⟨f.module, i⟩, id⟩ x (by rwa [block?, func_eq (f := ⟨f.module, i⟩) hf])

theorem advances_modifyFunc (hf : w.func? f = some fn) (hg : fn.Grows (g fn))
    (hp : w.Tidy → ∀ id x, (g fn).blocks.get? id = some x → x.parent = some f)
    (hs : w.Tidy → (w.contextOf f.module).isDisposed = false → w.FuncSound f →
      w.Grows (w.modifyFunc f g) → (w.modifyFunc f g).func? f = some (g fn) →
      (w.modifyFunc f g).FuncSound f) :
    w.Advances (w.modifyFunc f g) := by
  have hgrows : w.Grows (w.modifyFunc f g) := grows_modifyFunc (by rwa [func_eq hf])
  refine ⟨hgrows, fun ht => tidy_modifyFunc ht fun fn' hf' => ?_, fun ht hsound => ⟨?_, ?_⟩⟩
  · obtain rfl := Option.some.inj (hf.symm.trans hf')
    exact hp ht
  · intro h fn' hfn' hl
    rw [contextOf_modifyFunc] at hl
    by_cases he : h = f
    · subst he
      have hfn : (w.modifyFunc h g).func? h = some (g fn) := by
        rw [func?_modifyFunc, if_pos rfl, hf, Option.map_some]
      exact hs ht hl (hsound.funcs h fn hf hl) hgrows hfn
    · have hold : w.func? h = some fn' := by rwa [func?_modifyFunc, if_neg he] at hfn'
      exact (hsound.funcs h fn' hold hl).mono hgrows ht hold hfn' (by rwa [contextOf_modifyFunc])
  · intro m hl x hx
    have hx : x ∈ (w.module m).globals := by
      rw [module_modifyFunc] at hx
      split at hx
      · exact hx
      · exact hx
    rw [contextOf_modifyFunc] at hl ⊢
    exact hsound.globals m hl x hx

theorem isDeclaration_of_get? {id : Nat} {b : Block} (h : fn.blocks.get? id = some b) :
    fn.isDeclaration = false := by
  cases hd : fn.isDeclaration with
  | false => rfl
  | true =>
    simp only [Func.isDeclaration, BlockList.isEmpty, List.isEmpty_iff] at hd
    simp [BlockList.get?, hd] at h

theorem grows_addBlock (fn : Func) (self : FuncRef) (label : String) :
    fn.Grows (fn.addBlock self label).2 where
  params := rfl
  serial := rfl
  ref := rfl
  ids := by simp [Func.addBlock, BlockList.push]
  type := rfl
  retType := rfl
  linkage := rfl
  temps := List.prefix_rfl
  blocks id x hx := by
    refine ⟨x, ?_, rfl⟩
    have hne : id ≠ fn.blocks.size := by
      rintro rfl
      rw [BlockList.get?_eq_none_iff.2 (Nat.le_refl _)] at hx
      simp at hx
    simp [Func.addBlock, BlockList.get?_push, hne, hx]

theorem instrs_addBlock {self : FuncRef} {label : String} {id : Nat} {x : Block}
    (h : (fn.addBlock self label).2.blocks.get? id = some x) :
    fn.blocks.get? id = some x ∨ x.parent = some self ∧ x.instrs = [] := by
  simp only [Func.addBlock, BlockList.get?_push] at h
  split at h
  · obtain rfl := Option.some.inj h
    exact .inr ⟨rfl, rfl⟩
  · exact .inl h

theorem advances_addBlock (w : World) (f : FuncRef) (label : String)
    (himported : (w.func f).linkage ≠ .imported) : w.Advances (w.addBlock f label).2 := by
  cases hf : w.func? f with
  | none =>
    have he : (w.addBlock f label).2 = w := modifyFunc_of_none hf _
    rw [he]
    exact .refl w
  | some fn =>
    rw [func_eq hf] at himported
    have he : (w.addBlock f label).2 = w.modifyFunc f fun fn => (fn.addBlock f label).2 := by
      rw [addBlock, func_eq hf]
      exact modifyFunc_congr hf rfl
    rw [he]
    refine advances_modifyFunc hf (grows_addBlock fn f label) (fun ht id x hx => ?_)
      fun ht hl hs hg hf' => ?_
    · rcases instrs_addBlock hx with hx | ⟨hp, _⟩
      · exact ht.blocks ⟨f, id⟩ x (by rwa [block?, func_eq hf])
      · exact hp
    · have hsame : (fn.addBlock f label).2.results = fn.results := by
        simp [Func.addBlock, Func.results, BlockList.push, Block.results]
      refine hs.update hg ht hf hf' (by rwa [contextOf_modifyFunc]) (fun hi => absurd hi himported)
        (fun t ht => hs.temps t (by rwa [func_eq hf])) ?_ (fun id x hx => ?_) fun id x hx i hi => ?_
      · rw [hsame, ← func_eq hf]
        exact hs.results
      · rcases instrs_addBlock hx with hx | ⟨_, hx⟩
        · exact hs.ordered id x (by rwa [func_eq hf])
        · simp [Block.Ordered, hx]
      · rcases instrs_addBlock hx with hx | ⟨_, hx⟩
        · exact hs.instrs id x (by rwa [func_eq hf]) i hi
        · simp [hx] at hi

end TypedIR.World
