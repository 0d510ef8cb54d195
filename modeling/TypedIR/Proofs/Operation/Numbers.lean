import TypedIR.Proofs.Constant.Minting
import TypedIR.Proofs.Operation.Modules

/-! Modules and functions are numbered within their context. The numbers count up, so none is given out
twice; every address has a type of the context that it was given out in. -/

namespace TypedIR

namespace World

variable {w w' w'' : World} {m k : Nat}

structure SameSymbols (w w' : World) : Prop where
  modules : w'.modules.length = w.modules.length
  funcs : ∀ k, (w'.module k).funcs.length = (w.module k).funcs.length
  globals : ∀ k, (w'.module k).globals.length = (w.module k).globals.length

theorem sameSymbols_of_eq (h : w'.modules = w.modules) : w.SameSymbols w' where
  modules := by rw [h]
  funcs k := by rw [module_congr h]
  globals k := by rw [module_congr h]

theorem SameSymbols.trans (h : w.SameSymbols w') (h' : w'.SameSymbols w'') : w.SameSymbols w'' where
  modules := h'.modules.trans h.modules
  funcs k := (h'.funcs k).trans (h.funcs k)
  globals k := (h'.globals k).trans (h.globals k)

theorem sameSymbols_modifyFunc (w : World) (f : FuncRef) (g : Func → Func) :
    w.SameSymbols (w.modifyFunc f g) where
  modules := by simp [modifyFunc]
  funcs k := by
    rw [module_modifyFunc]
    split
    · simp
    · rfl
  globals k := by
    rw [module_modifyFunc]
    split <;> rfl

structure NewModule (w w' : World) (k : Nat) : Prop where
  last : k = w.modules.length
  context : 0 < (w'.module k).context ∧ (w'.module k).context ≤ w.contexts.length
  fresh : (w.context (w'.module k).context).modulesMade < (w'.module k).serial
  counted : (w'.module k).serial ≤ (w'.contextOf k).modulesMade

structure NewFunc (w w' : World) (f : FuncRef) (fn : Func) : Prop where
  module : f.module < w.modules.length
  fresh : (w.contextOf f.module).funcsMade < fn.serial
  counted : fn.serial ≤ (w'.contextOf f.module).funcsMade
  address : (w'.contextOf f.module).types.owns fn.refType

structure Extends (w w' : World) : Prop where
  modules : ∀ k, w.modules.length ≤ k → k < w'.modules.length → w.NewModule w' k
  funcs : ∃ new : FuncRef, ∀ f fn, w.func? f = none → w'.func? f = some fn →
    f = new ∧ w.NewFunc w' f fn
  globals : ∀ k (i : Nat) g, (w.module k).globals[i]? = none → (w'.module k).globals[i]? = some g →
    k < w.modules.length ∧ (w'.contextOf k).types.owns g.refType

theorem SameSymbols.extends (h : w.SameSymbols w') : w.Extends w' where
  modules k hk hk' := absurd hk (by rw [h.modules] at hk'; omega)
  funcs := by
    refine ⟨⟨0, 0⟩, fun f fn hf hf' => ?_⟩
    rw [func?, List.getElem?_eq_none_iff, ← h.funcs] at hf
    exact absurd (List.getElem?_eq_none hf) (by rw [← func?, hf']; simp)
  globals k i g hg hg' := by
    rw [List.getElem?_eq_none_iff, ← h.globals] at hg
    exact absurd (List.getElem?_eq_none hg) (by simp [hg'])

theorem extends_addModule {n : Nat} (name : String) (hn : 0 < n ∧ n ≤ w.contexts.length) :
    w.Extends (w.addModule n name).2 where
  modules k hk hk' := by
    have hlen : (w.addModule n name).2.modules.length = w.modules.length + 1 := by simp [addModule]
    obtain rfl : k = w.modules.length := by omega
    have hmodule := module_addModule w n name w.modules.length
    rw [if_pos rfl] at hmodule
    have hcontext : (w.addModule n name).2.context n =
        { w.context n with modulesMade := (w.context n).modulesMade + 1 } := by
      rw [context_addModule, context_setContext, if_pos ⟨rfl, hn⟩]
    constructor
    · rfl
    · rwa [hmodule]
    · rw [hmodule]
      exact Nat.lt_succ_self _
    · rw [contextOf, hmodule]
      exact Nat.le_of_eq (congrArg Context.modulesMade hcontext).symm
  funcs := by
    refine ⟨⟨0, 0⟩, fun f fn hf hf' => ?_⟩
    rw [func?, module_addModule] at hf'
    split at hf'
    · simp at hf'
    · exact absurd (hf.symm.trans hf') (by simp)
  globals k i g hg hg' := by
    rw [module_addModule] at hg'
    split at hg'
    · simp at hg'
    · exact absurd (hg.symm.trans hg') (by simp)

section Declared

variable {d : Declared} (hl : (w.contextOf m).isDisposed = false)
include hl

theorem sameSymbols_declared (hf : d.module.funcs.length = (w.module m).funcs.length)
    (hg : d.module.globals.length = (w.module m).globals.length) : w.SameSymbols (w.declared m d) where
  modules := by rw [modules_declared, List.length_set]
  funcs k := by
    rw [module_declared (lt_of_live hl)]
    split
    next h => rw [hf, h]
    next => rfl
  globals k := by
    rw [module_declared (lt_of_live hl)]
    split
    next h => rw [hg, h]
    next => rfl

theorem extends_declared_func {fn : Func} {symbols : List (String × Symbol)}
    (hm : d.module = { w.module m with funcs := (w.module m).funcs ++ [fn], symbols })
    (hs : (w.contextOf m).funcsMade < fn.serial) (hc : fn.serial ≤ d.context.funcsMade)
    (ht : d.context.types.owns fn.refType) : w.Extends (w.declared m d) where
  modules k hk hk' := absurd hk (by rw [modules_declared, List.length_set] at hk'; omega)
  funcs := by
    refine ⟨⟨m, (w.module m).funcs.length⟩, fun f gn hf hf' => ?_⟩
    have hcontext : (w.declared m d).contextOf m = d.context := contextOf_declared hl (by rw [hm])
    rw [func?, module_declared (lt_of_live hl)] at hf'
    split at hf'
    next h =>
      obtain rfl := h
      rw [hm] at hf'
      obtain ⟨hi, rfl⟩ := eq_of_getElem?_concat hf hf'
      refine ⟨by rw [← hi], lt_of_live hl, hs, ?_, ?_⟩
      · rwa [hcontext]
      · rwa [hcontext]
    next => exact absurd (hf.symm.trans hf') (by simp)
  globals k i g hg hg' := by
    rw [module_declared (lt_of_live hl)] at hg'
    split at hg'
    next h => rw [hm, ← h, hg] at hg'; simp at hg'
    next => exact absurd (hg.symm.trans hg') (by simp)

theorem extends_declared_global {g : Global} {symbols : List (String × Symbol)}
    (hm : d.module = { w.module m with globals := (w.module m).globals ++ [g], symbols })
    (ht : d.context.types.owns g.refType) : w.Extends (w.declared m d) where
  modules k hk hk' := absurd hk (by rw [modules_declared, List.length_set] at hk'; omega)
  funcs := by
    refine ⟨⟨0, 0⟩, fun f fn hf hf' => ?_⟩
    rw [func?, module_declared (lt_of_live hl)] at hf'
    split at hf'
    next h =>
      rw [hm, ← h, ← func?, hf] at hf'
      simp at hf'
    next => exact absurd (hf.symm.trans hf') (by simp)
  globals k i x hx hx' := by
    rw [module_declared (lt_of_live hl)] at hx'
    split at hx'
    next h =>
      obtain rfl := h
      rw [hm] at hx'
      obtain ⟨-, rfl⟩ := eq_of_getElem?_concat hx hx'
      rw [contextOf_declared hl (by rw [hm])]
      exact ⟨lt_of_live hl, ht⟩
    next => exact absurd (hx.symm.trans hx') (by simp)

theorem extends_declareFunc {name : String} {signature : TypeRef} {linkage : Linkage}
    (h : (w.module m).DeclaresFunc (w.contextOf m) name signature linkage d) :
    w.Extends (w.declared m d) := by
  cases h with
  | found => exact (sameSymbols_declared hl rfl rfl).extends
  | made _ _ _ ha =>
    rw [Module.newFunc_eq]
    exact extends_declared_func hl rfl (Nat.lt_succ_self _) (Nat.le_refl _) (TypeRequest.owns_pointer ha)

theorem extends_declareGlobal {name : String} {type : TypeRef} {init : Option Value}
    {isConstant : Bool} {linkage : Linkage}
    (h : (w.module m).DeclaresGlobal (w.contextOf m) name type init isConstant linkage d) :
    w.Extends (w.declared m d) := by
  cases h with
  | found => exact (sameSymbols_declared hl rfl rfl).extends
  | defined => exact (sameSymbols_declared hl rfl (List.length_set ..)).extends
  | made _ _ _ ha => exact extends_declared_global hl rfl (TypeRequest.owns_pointer ha)

end Declared

end World

namespace BuildState

variable {s s' : BuildState} {v : Option Value}

theorem Outcome.sameSymbols (h : s.Outcome v s') : s.world.SameSymbols s'.world := by
  cases h with
  | inserted h =>
    cases h with
    | @insert s₁ i x givesValue name h =>
      refine (World.sameSymbols_of_eq h.modules).trans ?_
      cases givesValue with
      | false => exact World.sameSymbols_modifyFunc _ _ _
      | true => exact (World.sameSymbols_modifyFunc _ _ _).trans (World.sameSymbols_modifyFunc _ _ _)
  | appended => exact World.sameSymbols_modifyFunc _ _ _
  | connected => exact World.sameSymbols_modifyFunc _ _ _
  | moved => exact World.sameSymbols_of_eq rfl

end BuildState

theorem BuildCall.sameSymbols (call : BuildCall) (s : BuildState) :
    s.world.SameSymbols (call.after s).world := by
  rcases call.outcome_or_asks s with ⟨v, h⟩ | h
  · exact h.sameSymbols
  · exact World.sameSymbols_of_eq h.modules

namespace World

variable {w w' : World} {k : Nat} {f g : FuncRef} {fn gn : Func}

theorem extends_perform (w : World) (o : Operation) : w.Extends (w.perform o) := by
  cases o with
  | newModule n name =>
    rw [perform]
    split
    next hn => exact extends_addModule name hn
    next => exact (sameSymbols_of_eq rfl).extends
  | declareFunc m name signature linkage =>
    rcases w.perform_declareFunc m name signature linkage with hw | ⟨d, hl, hd, hw⟩
    · rw [hw]
      exact (sameSymbols_of_eq rfl).extends
    · rw [hw]
      exact extends_declareFunc hl hd
  | declareGlobal m name type init isConstant linkage =>
    rcases w.perform_declareGlobal m name type init isConstant linkage with hw | ⟨d, hl, -, hd, hw⟩
    · rw [hw]
      exact (sameSymbols_of_eq rfl).extends
    · rw [hw]
      exact extends_declareGlobal hl hd
  | build b call => exact (call.sameSymbols ⟨w, b⟩).extends
  | _ => exact (sameSymbols_of_eq (modules_perform (by simp) rfl)).extends

theorem counts_perform (w : World) (o : Operation) (hk : k ≤ w.contexts.length) :
    (w.context k).modulesMade ≤ ((w.perform o).context k).modulesMade ∧
      (w.context k).funcsMade ≤ ((w.perform o).context k).funcsMade := by
  rcases context_perform w o hk with ⟨vs, hs, -⟩ | ⟨-, he⟩
  · exact ⟨hs.modulesMade_le, hs.funcsMade_le⟩
  · rw [he]
    exact ⟨Nat.le_refl _, Nat.le_refl _⟩

/-- Numbers that contexts have given out and counted, each of them once. -/
structure Counted {α : Type} (number : α → Nat → Nat → Prop) (count : Nat → Nat) : Prop where
  le : ∀ x n s, number x n s → s ≤ count n
  inj : ∀ x y n s, number x n s → number y n s → x = y

theorem Counted.next {α : Type} {number number' : α → Nat → Nat → Prop} {count count' : Nat → Nat}
    (h : Counted number count) (new : α) (hnext : ∀ x n s, number' x n s →
      number x n s ∧ count n ≤ count' n ∨ x = new ∧ count n < s ∧ s ≤ count' n) :
    Counted number' count' where
  le x n s hx := by
    rcases hnext x n s hx with ⟨hx, hc⟩ | ⟨-, -, hs⟩
    · exact Nat.le_trans (h.le x n s hx) hc
    · exact hs
  inj x y n s hx hy := by
    rcases hnext x n s hx with ⟨hx, -⟩ | ⟨rfl, hx, -⟩
    · rcases hnext y n s hy with ⟨hy, -⟩ | ⟨-, hy, -⟩
      · exact h.inj x y n s hx hy
      · exact absurd (h.le x n s hx) (Nat.not_le_of_lt hy)
    · rcases hnext y n s hy with ⟨hy, -⟩ | ⟨rfl, -, -⟩
      · exact absurd (h.le y n s hy) (Nat.not_le_of_lt hx)
      · rfl

def ModuleNumber (w : World) (k n s : Nat) : Prop :=
  k < w.modules.length ∧ (w.module k).context = n ∧ (w.module k).serial = s

def FuncNumber (w : World) (f : FuncRef) (n s : Nat) : Prop :=
  ∃ fn, w.func? f = some fn ∧ (w.module f.module).context = n ∧ fn.serial = s

structure Numbered (w : World) : Prop where
  context : ∀ k < w.modules.length,
    0 < (w.module k).context ∧ (w.module k).context ≤ w.contexts.length
  modules : Counted w.ModuleNumber fun n => (w.context n).modulesMade
  funcs : Counted w.FuncNumber fun n => (w.context n).funcsMade

theorem numbered_perform (hn : w.Numbered) (o : Operation) : (w.perform o).Numbered := by
  have he := extends_perform w o
  have hg := (advances_perform w o).grows
  constructor
  · intro k hk
    by_cases hk' : k < w.modules.length
    · rw [(hg.modules k hk').context]
      exact ⟨(hn.context k hk').1, Nat.le_trans (hn.context k hk').2 hg.contextCount⟩
    · have hpos := (he.modules k (Nat.le_of_not_lt hk') hk).context
      exact ⟨hpos.1, Nat.le_trans hpos.2 hg.contextCount⟩
  · refine hn.modules.next w.modules.length fun k n s hk => ?_
    obtain ⟨hk, rfl, rfl⟩ := hk
    by_cases hk' : k < w.modules.length
    · have hm := hg.modules k hk'
      rw [hm.context, hm.serial]
      exact .inl ⟨⟨hk', rfl, rfl⟩, (counts_perform w o (hn.context k hk').2).1⟩
    · have hnew := he.modules k (Nat.le_of_not_lt hk') hk
      exact .inr ⟨hnew.last, hnew.fresh, hnew.counted⟩
  · obtain ⟨new, hnew⟩ := he.funcs
    refine hn.funcs.next new fun f n s hf => ?_
    obtain ⟨fn, hf, rfl, rfl⟩ := hf
    cases hf' : w.func? f with
    | none =>
      obtain ⟨hf₀, hnew⟩ := hnew f fn hf' hf
      have hcounted := hnew.counted
      rw [contextOf, (hg.modules _ hnew.module).context] at hcounted
      rw [(hg.modules _ hnew.module).context]
      exact .inr ⟨hf₀, hnew.fresh, hcounted⟩
    | some fn' =>
      have hk := lt_of_func? hf'
      have hserial := (hg.of_func? hf' hf).serial
      rw [(hg.modules _ hk).context]
      exact .inl ⟨⟨fn', hf', rfl, hserial.symm⟩, (counts_perform w o (hn.context _ hk).2).2⟩

theorem Reachable.numbered (h : w.Reachable) : w.Numbered := by
  induction h with
  | empty =>
    refine ⟨fun k hk => absurd hk (by simp), ⟨fun k n s hk => ?_, fun k _ n s hk => ?_⟩,
      ⟨fun f n s hf => ?_, fun f _ n s hf => ?_⟩⟩
    · exact absurd hk.1 (by simp)
    · exact absurd hk.1 (by simp)
    · exact absurd (lt_of_func? hf.choose_spec.1) (by simp)
    · exact absurd (lt_of_func? hf.choose_spec.1) (by simp)
  | perform _ o ih => exact numbered_perform ih o

structure Addressed (w : World) : Prop where
  funcs : ∀ f fn, w.func? f = some fn → (w.contextOf f.module).isDisposed = false →
    (w.contextOf f.module).types.owns fn.refType
  globals : ∀ k (i : Nat) g, (w.module k).globals[i]? = some g →
    (w.contextOf k).isDisposed = false → (w.contextOf k).types.owns g.refType

theorem lt_of_global {i : Nat} {g : Global} (h : (w.module k).globals[i]? = some g) :
    k < w.modules.length := by
  by_contra hk
  simp [globals_module_of_le (Nat.le_of_not_lt hk)] at h

theorem addressed_perform (ht : w.Tidy) (ha : w.Addressed) (o : Operation) :
    (w.perform o).Addressed := by
  have he := extends_perform w o
  have hg := (advances_perform w o).grows
  constructor
  · intro f fn hf hl
    cases hf' : w.func? f with
    | none =>
      obtain ⟨new, hnew⟩ := he.funcs
      exact (hnew f fn hf' hf).2.address
    | some fn' =>
      obtain ⟨hl', hcg⟩ := hg.contextOf ht (lt_of_func? hf') hl
      rw [(hg.of_func? hf' hf).refType]
      exact hcg.types.owns (ha.funcs f fn' hf' hl')
  · intro k i g hi hl
    cases hi' : (w.module k).globals[i]? with
    | none => exact (he.globals k i g hi' hi).2
    | some g' =>
      have hk := lt_of_global hi'
      obtain ⟨_, hi'', hsame⟩ := (hg.modules k hk).globals i g' hi'
      obtain rfl := Option.some.inj (hi.symm.trans hi'')
      obtain ⟨hl', hcg⟩ := hg.contextOf ht hk hl
      have htype : g.refType = g'.refType := congrArg Value.type hsame
      rw [htype]
      exact hcg.types.owns (ha.globals k i g' hi' hl')

theorem Reachable.addressed (h : w.Reachable) : w.Addressed := by
  induction h with
  | empty =>
    refine ⟨fun f fn hf => ?_, fun k i g hg => ?_⟩
    · exact absurd (lt_of_func? hf) (by simp)
    · exact absurd (lt_of_global hg) (by simp)
  | perform h o ih => exact addressed_perform h.tidy_and_sound.1 ih o

/-- The types of a module's addresses and temporaries are of one context, whether it lives or not. -/
structure TypesOf (n : Nat) (m : Module) : Prop where
  funcs : ∀ (i : Nat) fn, m.funcs[i]? = some fn →
    fn.refType.context = n ∧ ∀ t ∈ fn.temps, t.type.context = n
  globals : ∀ (i : Nat) g, m.globals[i]? = some g → g.refType.context = n

theorem module_perform_of_disposed (h : w.Reachable) {o : Operation} (hk : k < w.modules.length)
    (hd : ((w.perform o).contextOf k).isDisposed) : (w.perform o).module k = w.module k := by
  refine module_perform hk (h.tidy_and_sound.1.keepsBlocks k) fun ho => ?_
  have hcontext := ((advances_perform w o).grows.modules k hk).context
  rw [contextOf, hcontext] at hd
  rcases context_perform w o (h.numbered.context k hk).2 with ⟨vs, hs, -⟩ | ⟨he, -⟩
  · exact hs.grows.isDisposed.symm.trans hd
  · simp [he, Operation.module?] at ho

theorem Reachable.typesOf (h : w.Reachable) : ∀ k < w.modules.length,
    TypesOf (w.module k).context (w.module k) := by
  induction h with
  | empty => exact fun k hk => absurd hk (by simp)
  | @perform w h o ih =>
    intro k hk
    have h' := h.perform o
    cases hd : ((w.perform o).contextOf k).isDisposed with
    | false =>
      have hid : ((w.perform o).contextOf k).id = ((w.perform o).module k).context :=
        h'.id_context (valid_of_live hd).1 (valid_of_live hd).2
      have howned {t : TypeRef} (ht : ((w.perform o).contextOf k).types.owns t) :
          t.context = ((w.perform o).module k).context :=
        (TypeRegistry.context_of_owns ht).trans hid
      refine ⟨fun i fn hf => ⟨howned (h'.addressed.funcs ⟨k, i⟩ fn hf hd), fun t ht => howned ?_⟩,
        fun i g hg => howned (h'.addressed.globals k i g hg hd)⟩
      have hsound := h'.tidy_and_sound.2.funcs ⟨k, i⟩ fn hf hd
      exact hsound.temps t (by rwa [func_eq (f := ⟨k, i⟩) hf])
    | true =>
      by_cases hk' : k < w.modules.length
      · rw [module_perform_of_disposed h hk' hd]
        exact ih k hk'
      · -- A module that is new has no symbols yet.
        have he := extends_perform w o
        obtain ⟨new, hnew⟩ := he.funcs
        refine ⟨fun i fn hf => absurd (hnew ⟨k, i⟩ fn ?_ hf).2.module hk',
          fun i g hg => absurd (he.globals k i g ?_ hg).1 hk'⟩
        · rw [func?, funcs_module_of_le (Nat.le_of_not_lt hk')]
          rfl
        · rw [globals_module_of_le (Nat.le_of_not_lt hk')]
          rfl

end World

end TypedIR
