import TypedIR.Proofs.Growth.Worlds

/-! Soundness: what construction keeps true of every module, and what a growing world cannot take
away from it. -/

namespace TypedIR

def Block.Ordered (b : Block) : Prop :=
  b.instrs.Pairwise fun i j => ¬ i.op.isTerminator ∧ (j.op = .phi → i.op = .phi)

def Block.results (b : Block) : List Nat := b.instrs.filterMap (·.result)

def Func.results (f : Func) : List Nat := f.blocks.entries.flatMap fun e => e.2.results

namespace World

variable {w w' : World} {m : Nat} {f : FuncRef} {fn : Func} {i : Instr}

theorem results_sites : results (w.sites f) = (w.func f).results := by
  have h (b : BlockRef) (x : Block) :
      (findAt x.instrs fun n i => [(⟨b, x, n, i⟩ : Site)]).filterMap (·.instr.result) = x.results := by
    rw [findAt, ← List.map_eq_flatMap, List.filterMap_map, Block.results]
    conv_rhs => rw [← List.zipIdx_map_fst 0 x.instrs, List.filterMap_map]
    rfl
  simp only [results, sites, Func.results, blocksOf, List.flatMap_map, List.filterMap_flatMap, h]

/-- Blocks are in the functions that they were made in, and the types of a context are made of its
types. -/
structure Tidy (w : World) : Prop where
  blocks : w.BlocksInPlace
  closed : ∀ k, (w.context k).isDisposed = false → (w.context k).types.Closed
  contexts : ∀ m, (w.module m).context ≤ w.contexts.length

theorem Tidy.setModule (ht : w.Tidy) {x : Module} (hc : x.context = (w.module m).context)
    (hb : ∀ (i : Nat) fn, x.funcs[i]? = some fn →
      ∀ id y, fn.blocks.get? id = some y → y.parent = some ⟨m, i⟩) :
    (w.setModule m x).Tidy := by
  by_cases hm : m < w.modules.length
  · refine ⟨fun b y hy => ?_, fun k hk => ?_, fun k => ?_⟩
    · obtain ⟨fn, hf, hy⟩ := func?_of_block? hy
      rw [func?, module_setModule w hm] at hf
      split at hf
      next h => rw [hb _ fn hf b.id y hy, ← h]
      next => exact ht.blocks b y (by rwa [block?, func_eq hf])
    · rw [context_setModule] at hk ⊢
      exact ht.closed k hk
    · rw [module_setModule w hm]
      split
      next h =>
        rw [hc]
        exact ht.contexts m
      next => exact ht.contexts k
  · rwa [setModule_of_le (Nat.le_of_not_lt hm)]

structure InstrSound (w : World) (f : FuncRef) (i : Instr) : Prop where
  operands : ∀ v ∈ i.operands,
    checkOperand (w.contextOf f.module) (w.module f.module) (w.func f) v = .ok ()
  types : InstrTypes (w.contextOf f.module).types i
  typing : w.checkInstr f.module f i = .ok ()

/-- Each temporary that is no parameter has exactly one instruction that defines it. -/
structure FuncSound (w : World) (f : FuncRef) : Prop where
  signature : (w.contextOf f.module).types.owns (w.func f).type
  result : (w.contextOf f.module).types.owns (w.func f).retType
  temps : ∀ t ∈ (w.func f).temps, (w.contextOf f.module).types.owns t.type
  imported : (w.func f).linkage = .imported → (w.func f).isDeclaration
  params : (w.func f).params.length ≤ (w.func f).temps.length
  results : (w.func f).results.Perm
    (List.range' (w.func f).params.length ((w.func f).temps.length - (w.func f).params.length))
  ordered : ∀ id x, (w.func f).blocks.get? id = some x → x.Ordered
  instrs : ∀ id x, (w.func f).blocks.get? id = some x → ∀ i ∈ x.instrs, w.InstrSound f i

structure Sound (w : World) : Prop where
  funcs : ∀ f fn, w.func? f = some fn → (w.contextOf f.module).isDisposed = false → w.FuncSound f
  globals : ∀ m, (w.contextOf m).isDisposed = false →
    ∀ g ∈ (w.module m).globals, GlobalTypes (w.contextOf m).types g

theorem Frame.contextOf {r : Module → Module → Prop} (hr : ∀ {a b}, r a b → b.context = a.context)
    (h : w.Frame r w') (ht : w.Tidy) (hm : m < w.modules.length)
    (hl : (w'.contextOf m).isDisposed = false) :
    (w.contextOf m).isDisposed = false ∧ (w.contextOf m).Grows (w'.contextOf m) := by
  have he : w'.contextOf m = w'.context (w.module m).context := by
    rw [World.contextOf, hr (h.modules m hm)]
  rw [he] at hl ⊢
  exact h.contexts _ (ht.contexts m) hl

theorem Grows.contextOf (h : w.Grows w') (ht : w.Tidy) (hm : m < w.modules.length)
    (hl : (w'.contextOf m).isDisposed = false) :
    (w.contextOf m).isDisposed = false ∧ (w.contextOf m).Grows (w'.contextOf m) :=
  Frame.contextOf (fun h => h.context) h ht hm hl

theorem InstrTypes.mono {types types' : TypeRegistry} (h : types.Grows types')
    (hi : InstrTypes types i) : InstrTypes types' i where
  result := h.owns hi.result
  operand hop := h.owns (hi.operand hop)
  operands v hv := h.owns (hi.operands v hv)

theorem GlobalTypes.mono {types types' : TypeRegistry} {g : Global} (h : types.Grows types')
    (hg : GlobalTypes types g) : GlobalTypes types' g where
  type := h.owns hg.type
  init v hv := h.owns (hg.init v hv)

theorem InstrSound.mono (hi : w.InstrSound f i) (h : w.Grows w') (ht : w.Tidy)
    (hf : w.func? f = some fn) (hret : (w.contextOf f.module).types.owns (w.func f).retType)
    (hl : (w'.contextOf f.module).isDisposed = false) : w'.InstrSound f i := by
  have hm : f.module < w.modules.length := lt_of_func? hf
  obtain ⟨hlive, hc⟩ := h.contextOf ht hm hl
  have hmod : (w.module f.module).Recalls (w'.module f.module) := (h.modules _ hm).recalls
  have hfunc : (w.func f).Grows (w'.func f) := h.func hf
  obtain ⟨hshape, hblocks, hrule⟩ := checkInstr_eq_ok_iff.1 hi.typing
  refine ⟨fun v hv => checkOperand_mono hc hfunc.recalls (fun _ => hmod.symbolName?) (hi.operands v hv),
    hi.types.mono hc.types, checkInstr_eq_ok_iff.2 ⟨hshape, ?_, ?_⟩⟩
  · rw [Instr.checkBlocks_iff] at hblocks ⊢
    exact ⟨fun t ht => h.isBlockOf (hblocks.1 t ht), fun t ht => h.isBlockOf (hblocks.2 t ht)⟩
  · exact Instr.checkRule_mono hc (ht.closed _ hlive) hmod.toRecallsFuncs
      (fun _ => Instr.checkRet_mono hc hfunc.retType hret) hi.operands hi.types hrule

theorem FuncSound.mono (hs : w.FuncSound f) (h : w.Grows w') (ht : w.Tidy)
    (hf : w.func? f = some fn) (hsame : w'.func? f = some fn)
    (hl : (w'.contextOf f.module).isDisposed = false) : w'.FuncSound f := by
  obtain ⟨_, hc⟩ := h.contextOf ht (lt_of_func? hf) hl
  have he : w'.func f = w.func f := (func_eq hsame).trans (func_eq hf).symm
  constructor
  · rw [he]
    exact hc.types.owns hs.signature
  · rw [he]
    exact hc.types.owns hs.result
  · rw [he]
    exact fun t ht => hc.types.owns (hs.temps t ht)
  · rw [he]
    exact hs.imported
  · rw [he]
    exact hs.params
  · rw [he]
    exact hs.results
  · rw [he]
    exact hs.ordered
  · rw [he]
    exact fun id x hx i hi => (hs.instrs id x hx i hi).mono h ht hf hs.result hl

end World

end TypedIR
