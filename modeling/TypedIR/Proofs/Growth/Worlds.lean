import TypedIR.Proofs.Growth.Contexts
import TypedIR.Proofs.Typing.Growth

namespace TypedIR

structure Func.Keeps (f f' : Func) : Prop where
  params : f'.params = f.params
  serial : f'.serial = f.serial
  ref : f'.ref = f.ref
  ids : f.blocks.entries.map Prod.fst <+: f'.blocks.entries.map Prod.fst

namespace Func.Keeps

variable {f f' f'' : Func}

theorem refl (f : Func) : f.Keeps f := ⟨rfl, rfl, rfl, List.prefix_rfl⟩

theorem trans (h : f.Keeps f') (h' : f'.Keeps f'') : f.Keeps f'' :=
  ⟨h'.params.trans h.params, h'.serial.trans h.serial, h'.ref.trans h.ref,
    h.ids.trans h'.ids⟩

theorem refType (h : f.Keeps f') : f'.refType = f.refType := congrArg Value.type h.ref

end Func.Keeps

structure Func.Grows (f f' : Func) : Prop extends f.Keeps f' where
  type : f'.type = f.type
  retType : f'.retType = f.retType
  linkage : f'.linkage = f.linkage
  temps : f.temps.map (·.type) <+: f'.temps.map (·.type)
  blocks : ∀ id x, f.blocks.get? id = some x →
    ∃ x', f'.blocks.get? id = some x' ∧ x'.parent = x.parent

namespace Func.Grows

variable {f f' f'' : Func}

theorem refl (f : Func) : f.Grows f :=
  ⟨.refl f, rfl, rfl, rfl, List.prefix_rfl, fun _ x h => ⟨x, h, rfl⟩⟩

theorem trans (h : f.Grows f') (h' : f'.Grows f'') : f.Grows f'' where
  toKeeps := h.toKeeps.trans h'.toKeeps
  type := h'.type.trans h.type
  retType := h'.retType.trans h.retType
  linkage := h'.linkage.trans h.linkage
  temps := h.temps.trans h'.temps
  blocks := by
    intro id x hx
    obtain ⟨x', hx', hp⟩ := h.blocks id x hx
    obtain ⟨x'', hx'', hp'⟩ := h'.blocks id x' hx'
    exact ⟨x'', hx'', hp'.trans hp⟩

theorem recalls (h : f.Grows f') : f.Recalls f' where
  serial := h.serial
  params := by rw [h.params]
  temps := by
    intro i t ht
    have hi : (f.temps.map (·.type))[i]? = some t.type := by simp [ht]
    obtain ⟨rest, he⟩ := h.temps
    have hlt : i < (f.temps.map (·.type)).length := (List.getElem?_eq_some_iff.1 hi).1
    rw [← List.getElem?_append_left hlt, he] at hi
    simpa using hi

end Func.Grows

/-- A module that is still the same one, with every function related to what has become of it. -/
structure Module.Frame (r : Func → Func → Prop) (m m' : Module) : Prop where
  context : m'.context = m.context
  serial : m'.serial = m.serial
  funcs : ∀ (i : Nat) f, m.funcs[i]? = some f → ∃ f', m'.funcs[i]? = some f' ∧ r f f'

namespace Module.Frame

variable {r : Func → Func → Prop} {m m' m'' : Module}

theorem refl (hr : ∀ f, r f f) (m : Module) : m.Frame r m := ⟨rfl, rfl, fun _ f h => ⟨f, h, hr f⟩⟩

theorem trans (hr : ∀ {f f' f''}, r f f' → r f' f'' → r f f'') (h : m.Frame r m')
    (h' : m'.Frame r m'') : m.Frame r m'' where
  context := h'.context.trans h.context
  serial := h'.serial.trans h.serial
  funcs := by
    intro i f hf
    obtain ⟨f', hf', hff⟩ := h.funcs i f hf
    obtain ⟨f'', hf'', hff'⟩ := h'.funcs i f' hf'
    exact ⟨f'', hf'', hr hff hff'⟩

theorem modify (hr : ∀ f, r f f) {i : Nat} {g : Func → Func}
    (h : ∀ f, m.funcs[i]? = some f → r f (g f)) :
    m.Frame r { m with funcs := m.funcs.modify i g } := by
  refine ⟨rfl, rfl, fun k f hf => ?_⟩
  rw [List.getElem?_modify, hf]
  by_cases hi : i = k
  · exact ⟨g f, by simp [hi], h f (hi ▸ hf)⟩
  · exact ⟨f, by simp [hi], hr f⟩

end Module.Frame

structure Module.Grows (m m' : Module) : Prop extends m.Frame Func.Grows m' where
  globals : ∀ (i : Nat) g, m.globals[i]? = some g →
    ∃ g', m'.globals[i]? = some g' ∧ g'.ref = g.ref

namespace Module.Grows

variable {m m' m'' : Module}

theorem refl (m : Module) : m.Grows m := ⟨.refl .refl m, fun _ g h => ⟨g, h, rfl⟩⟩

theorem trans (h : m.Grows m') (h' : m'.Grows m'') : m.Grows m'' where
  toFrame := h.toFrame.trans .trans h'.toFrame
  globals := by
    intro i g hg
    obtain ⟨g', hg', hgg⟩ := h.globals i g hg
    obtain ⟨g'', hg'', hgg'⟩ := h'.globals i g' hg'
    exact ⟨g'', hg'', hgg'.trans hgg⟩

theorem recalls (h : m.Grows m') : m.Recalls m' where
  serial := h.serial
  funcs := by
    intro i f hf
    obtain ⟨f', hf', hff⟩ := h.funcs i f hf
    exact ⟨f', hf', hff.refType, hff.type⟩
  globals := by
    intro i g hg
    obtain ⟨g', hg', hgg⟩ := h.globals i g hg
    exact ⟨g', hg', congrArg Value.type hgg⟩

end Module.Grows

namespace World

variable {w w' w'' : World} {m : Nat} {f : FuncRef}

/-- A context that is alive was alive before, and has grown; every module is related to what has
become of it. New contexts and modules may come. -/
structure Frame (r : Module → Module → Prop) (w w' : World) : Prop where
  contexts : ∀ k ≤ w.contexts.length, (w'.context k).isDisposed = false →
    (w.context k).isDisposed = false ∧ (w.context k).Grows (w'.context k)
  contextCount : w.contexts.length ≤ w'.contexts.length
  modules : ∀ k < w.modules.length, r (w.module k) (w'.module k)
  moduleCount : w.modules.length ≤ w'.modules.length

abbrev Grows (w w' : World) : Prop := w.Frame Module.Grows w'

theorem funcs_module_of_le (h : w.modules.length ≤ m) : (w.module m).funcs = [] := by
  rw [module, List.getD_eq_getElem?_getD, List.getElem?_eq_none h]
  rfl

theorem globals_module_of_le (h : w.modules.length ≤ m) : (w.module m).globals = [] := by
  rw [module, List.getD_eq_getElem?_getD, List.getElem?_eq_none h]
  rfl

theorem lt_of_func? {fn : Func} (h : w.func? f = some fn) : f.module < w.modules.length := by
  by_contra hf
  simp [func?, funcs_module_of_le (Nat.le_of_not_lt hf)] at h

theorem func_eq {fn : Func} (h : w.func? f = some fn) : w.func f = fn := by simp [func, h]

theorem func?_of_block? {b : BlockRef} {x : Block} (h : w.block? b = some x) :
    ∃ fn, w.func? b.func = some fn ∧ fn.blocks.get? b.id = some x := by
  cases hf : w.func? b.func with
  | none => simp [block?, func, hf, default, instInhabitedFunc.default, BlockList.get?,
      BlockList.empty] at h
  | some fn => exact ⟨fn, rfl, by simpa [block?, func, hf] using h⟩

theorem Frame.trans {r : Module → Module → Prop} (hr : ∀ {a b c}, r a b → r b c → r a c)
    (h : w.Frame r w') (h' : w'.Frame r w'') : w.Frame r w'' where
  contexts := by
    intro k hk hd
    obtain ⟨hd', hc'⟩ := h'.contexts k (Nat.le_trans hk h.contextCount) hd
    obtain ⟨hd, hc⟩ := h.contexts k hk hd'
    exact ⟨hd, hc.trans hc'⟩
  contextCount := Nat.le_trans h.contextCount h'.contextCount
  modules k hk := hr (h.modules k hk) (h'.modules k (Nat.lt_of_lt_of_le hk h.moduleCount))
  moduleCount := Nat.le_trans h.moduleCount h'.moduleCount

namespace Grows

theorem refl (w : World) : w.Grows w :=
  ⟨fun _ _ h => ⟨h, .refl _⟩, Nat.le_refl _, fun _ _ => .refl _, Nat.le_refl _⟩

theorem trans (h : w.Grows w') (h' : w'.Grows w'') : w.Grows w'' := Frame.trans .trans h h'

theorem func? (h : w.Grows w') {fn : Func} (hf : w.func? f = some fn) :
    ∃ fn', w'.func? f = some fn' ∧ fn.Grows fn' :=
  (h.modules f.module (lt_of_func? hf)).funcs f.index fn hf

theorem of_func? (h : w.Grows w') {fn fn' : Func} (hf : w.func? f = some fn)
    (hf' : w'.func? f = some fn') : fn.Grows fn' := by
  obtain ⟨_, hsome, hg⟩ := h.func? hf
  obtain rfl := Option.some.inj (hf'.symm.trans hsome)
  exact hg

theorem func (h : w.Grows w') {fn : Func} (hf : w.func? f = some fn) :
    (w.func f).Grows (w'.func f) := by
  obtain ⟨fn', hf', hg⟩ := h.func? hf
  rwa [func_eq hf, func_eq hf']

theorem isBlockOf (h : w.Grows w') {b : Option BlockRef} (hb : w.isBlockOf f b) :
    w'.isBlockOf f b := by
  cases b with
  | none => exact hb
  | some b =>
    rw [World.isBlockOf, beq_iff_eq, parent?, Option.bind_eq_some_iff] at hb ⊢
    obtain ⟨x, hx, hp⟩ := hb
    obtain ⟨fn, hf, hx⟩ := func?_of_block? hx
    obtain ⟨fn', hf', hg⟩ := h.func? hf
    obtain ⟨x', hx', hpar⟩ := hg.blocks b.id x hx
    exact ⟨x', by rwa [block?, func_eq hf'], hpar.trans hp⟩

end Grows

theorem isDisposed_context_of_not {k : Nat} (h : ¬ (0 < k ∧ k ≤ w.contexts.length)) :
    (w.context k).isDisposed := by
  cases k with
  | zero => rfl
  | succ k =>
    have hk : w.contexts[k]? = none := List.getElem?_eq_none (by omega)
    rw [context, List.getD_eq_getElem?_getD, hk]
    rfl

theorem valid_of_live {k : Nat} (hl : (w.context k).isDisposed = false) :
    0 < k ∧ k ≤ w.contexts.length := by
  by_contra hn
  simp [isDisposed_context_of_not hn] at hl

theorem context_setContext (w : World) (n : Nat) (c : Context) (k : Nat) :
    (w.setContext n c).context k =
      if k = n ∧ 0 < n ∧ n ≤ w.contexts.length then c else w.context k := by
  cases n with
  | zero => simp [setContext]
  | succ n =>
    cases k with
    | zero => simp [context]
    | succ k =>
      simp only [setContext, context, List.getD_eq_getElem?_getD, List.getElem?_set]
      grind

theorem set_getD {α : Type} (xs : List α) (i : Nat) (x : α) : xs.set i (xs.getD i x) = xs := by
  apply List.ext_getElem?
  intro k
  rw [List.getElem?_set, List.getD_eq_getElem?_getD]
  grind

theorem setContext_context (w : World) (n : Nat) : w.setContext n (w.context n) = w := by
  cases n with
  | zero => rfl
  | succ n => simp only [setContext, context, set_getD]

@[simp] theorem length_contexts_setContext (w : World) (n : Nat) (c : Context) :
    (w.setContext n c).contexts.length = w.contexts.length := by
  cases n <;> simp [setContext]

@[simp] theorem modules_setContext (w : World) (n : Nat) (c : Context) :
    (w.setContext n c).modules = w.modules := by
  cases n <;> rfl

@[simp] theorem contexts_trace (w : World) (c : Context) (line : String) :
    (w.trace c line).contexts = w.contexts := by
  rw [trace]
  split <;> rfl

@[simp] theorem modules_trace (w : World) (c : Context) (line : String) :
    (w.trace c line).modules = w.modules := by
  rw [trace]
  split <;> rfl

theorem context_congr (h : w'.contexts = w.contexts) (k : Nat) : w'.context k = w.context k := by
  cases k <;> simp [context, h]

theorem module_congr (h : w'.modules = w.modules) (k : Nat) : w'.module k = w.module k := by
  simp [module, h]

theorem setModule_of_le (h : w.modules.length ≤ m) (x : Module) : w.setModule m x = w := by
  rw [setModule, List.set_eq_of_length_le h]

theorem module_modifyFunc (w : World) (f : FuncRef) (g : Func → Func) (k : Nat) :
    (w.modifyFunc f g).module k = if k = f.module then
      { w.module k with funcs := (w.module k).funcs.modify f.index g } else w.module k := by
  by_cases hf : f.module < w.modules.length
  · rw [modifyFunc, module_setModule w hf]
    split
    next h => rw [h]
    next => rfl
  · rw [modifyFunc, setModule_of_le (Nat.le_of_not_lt hf)]
    split
    next h =>
      have hd : (w.module k).funcs.modify f.index g = (w.module k).funcs := by
        simp [h, funcs_module_of_le (Nat.le_of_not_lt hf)]
      rw [hd]
    next => rfl

theorem module_modifyGlobal (w : World) (m index : Nat) (g : Global → Global) (k : Nat) :
    (w.modifyGlobal m index g).module k = if k = m then
      { w.module k with globals := (w.module k).globals.modify index g } else w.module k := by
  by_cases hm : m < w.modules.length
  · rw [modifyGlobal, module_setModule w hm]
    split
    next h => rw [h]
    next => rfl
  · rw [modifyGlobal, setModule_of_le (Nat.le_of_not_lt hm)]
    split
    next h =>
      have hd : (w.module k).globals.modify index g = (w.module k).globals := by
        simp [h, globals_module_of_le (Nat.le_of_not_lt hm)]
      rw [hd]
    next => rfl

theorem func?_modifyFunc (w : World) (f : FuncRef) (g : Func → Func) (h : FuncRef) :
    (w.modifyFunc f g).func? h = if h = f then (w.func? f).map g else w.func? h := by
  obtain ⟨m, i⟩ := h
  obtain ⟨m', j⟩ := f
  simp only [func?, module_modifyFunc, FuncRef.mk.injEq]
  by_cases hm : m = m'
  · subst hm
    simp only [if_true, List.getElem?_modify, true_and]
    grind
  · simp [hm]

@[simp] theorem func?_modifyGlobal (w : World) (m index : Nat) (g : Global → Global) (f : FuncRef) :
    (w.modifyGlobal m index g).func? f = w.func? f := by
  rw [func?, func?, module_modifyGlobal]
  split <;> rfl

@[simp] theorem length_modules_setModule (w : World) (m : Nat) (x : Module) :
    (w.setModule m x).modules.length = w.modules.length := by
  simp [setModule]

theorem context_addContext (w : World) (limit : Nat) (traces : Bool) (k : Nat) :
    (w.addContext limit traces).2.context k =
      if k = w.contexts.length + 1 then .new (w.contexts.length + 1) limit traces
      else w.context k := by
  cases k with
  | zero => simp [context]
  | succ k =>
    simp only [addContext, context, List.getD_eq_getElem?_getD, Nat.add_right_cancel_iff]
    grind

theorem module_addModule (w : World) (n : Nat) (name : String) (k : Nat) :
    (w.addModule n name).2.module k = if k = w.modules.length then
      { context := n, name, serial := (w.context n).modulesMade + 1 } else w.module k := by
  simp only [addModule, module, List.getD_eq_getElem?_getD]
  grind

theorem context_addModule (w : World) (n : Nat) (name : String) (k : Nat) :
    (w.addModule n name).2.context k =
      (w.setContext n { w.context n with modulesMade := (w.context n).modulesMade + 1 }).context k :=
  context_congr rfl k

theorem requestType_snd {α : Type} (w : World) (n : Nat) (q : TypeRequest α) :
    (w.requestType n q).2 =
      w.setContext n { w.context n with types := TypeRequest.after q (w.context n).types } := by
  cases h : q (w.context n).types <;> simp [requestType, TypeRequest.after, h]

theorem grows_of_eq (hc : w'.contexts = w.contexts) (hm : w'.modules = w.modules) : w.Grows w' where
  contexts k _ h := by
    rw [context_congr hc] at h ⊢
    exact ⟨h, .refl _⟩
  contextCount := Nat.le_of_eq (by rw [hc])
  modules k _ := by
    rw [module_congr hm]
    exact .refl _
  moduleCount := Nat.le_of_eq (by rw [hm])

theorem grows_setContext {n : Nat} {c : Context} (h : c.isDisposed = false →
    (w.context n).isDisposed = false ∧ (w.context n).Grows c) : w.Grows (w.setContext n c) where
  contexts k _ hd := by
    rw [context_setContext] at hd ⊢
    split at hd
    next hk =>
      rw [if_pos hk, hk.1]
      exact h hd
    next hk =>
      rw [if_neg hk]
      exact ⟨hd, .refl _⟩
  contextCount := by simp
  modules k _ := by
    rw [module_congr (modules_setContext w n c)]
    exact .refl _
  moduleCount := by simp

theorem grows_setContext_of_grows {n : Nat} {c : Context} (h : (w.context n).Grows c) :
    w.Grows (w.setContext n c) :=
  grows_setContext fun hd => ⟨h.isDisposed.symm.trans hd, h⟩

theorem Frame.setModule {r : Module → Module → Prop} (hr : ∀ a, r a a) {x : Module}
    (h : r (w.module m) x) : w.Frame r (w.setModule m x) where
  contexts k _ hd := by
    rw [context_setModule] at hd ⊢
    exact ⟨hd, .refl _⟩
  contextCount := Nat.le_refl _
  modules k hk := by
    by_cases hm : m < w.modules.length
    · rw [module_setModule w hm]
      split
      next he => exact he ▸ h
      next => exact hr _
    · rw [setModule_of_le (Nat.le_of_not_lt hm)]
      exact hr _
  moduleCount := by simp

theorem grows_setModule {x : Module} (h : (w.module m).Grows x) : w.Grows (w.setModule m x) :=
  .setModule .refl h

theorem grows_modifyFunc {g : Func → Func} (h : (w.func f).Grows (g (w.func f))) :
    w.Grows (w.modifyFunc f g) := by
  refine grows_setModule ⟨.modify .refl fun fn hf => ?_, fun i x hx => ⟨x, hx, rfl⟩⟩
  rwa [func_eq (f := f) hf] at h

theorem grows_addContext (w : World) (limit : Nat) (traces : Bool) :
    w.Grows (w.addContext limit traces).2 where
  contexts k hk hd := by
    rw [context_addContext, if_neg (by omega)] at hd ⊢
    exact ⟨hd, .refl _⟩
  contextCount := by simp [addContext]
  modules k _ := by
    rw [module_congr rfl]
    exact .refl _
  moduleCount := Nat.le_refl _

theorem grows_addModule (w : World) (n : Nat) (name : String) :
    w.Grows (w.addModule n name).2 := by
  let c : Context := { w.context n with modulesMade := (w.context n).modulesMade + 1 }
  have hc : w.Grows (w.setContext n c) := grows_setContext_of_grows ⟨.refl _, .refl _⟩
  refine ⟨fun k hk hd => ?_, hc.contextCount, fun k hk => ?_, ?_⟩
  · rw [context_addModule] at hd ⊢
    exact hc.contexts k hk hd
  · rw [module_addModule, if_neg (by omega)]
    exact .refl _
  · simp [addModule]

end World

end TypedIR
