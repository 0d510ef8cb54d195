import TypedIR.Proofs.Operation.Modules

namespace TypedIR

/-- What becomes of a function while code is written into it. -/
inductive Func.Writes (fn : Func) : Func → Prop
  | refl : fn.Writes fn
  | temp {fn' : Func} (h : fn.Writes fn') (type : TypeRef) (name : String) :
    fn.Writes (fn'.newTemp type name).2
  | block {fn' : Func} (h : fn.Writes fn') (self : FuncRef) (label : String) :
    fn.Writes (fn'.addBlock self label).2
  | instrs {fn' : Func} (h : fn.Writes fn') (id : Nat) (g : Block → Block)
    (hg : ∀ b, (g b).label = b.label ∧ (g b).parent = b.parent) :
    fn.Writes { fn' with blocks := fn'.blocks.modify id g }

def Func.heading (f : Func) : Func :=
  { f with temps := [], blocks := .empty, labelUses := {}, tempUses := {} }

namespace Func.Writes

variable {fn fn' fn'' : Func}

theorem trans (h : fn.Writes fn') (h' : fn'.Writes fn'') : fn.Writes fn'' := by
  induction h' with
  | refl => exact h
  | temp _ type name ih => exact ih.temp type name
  | block _ self label ih => exact ih.block self label
  | instrs _ id g hg ih => exact ih.instrs id g hg

theorem heading (h : fn.Writes fn') : fn'.heading = fn.heading := by
  induction h with
  | refl => rfl
  | @temp fn' _ type name ih =>
    obtain ⟨t, uses, he, -⟩ := fn'.newTemp_eq type name
    rw [← ih, he]
    rfl
  | block _ self label ih => exact ih
  | instrs _ id g hg ih => exact ih

end Func.Writes

structure Module.Writes (m m' : Module) : Prop where
  length : m'.funcs.length = m.funcs.length
  funcs : ∀ (i : Nat) fn', m'.funcs[i]? = some fn' → ∃ fn, m.funcs[i]? = some fn ∧ fn.Writes fn'
  globals : m'.globals = m.globals
  symbols : m'.symbols = m.symbols

structure Module.Same (m m' : Module) : Prop where
  funcs : m'.funcs = m.funcs
  globals : m'.globals = m.globals
  symbols : m'.symbols = m.symbols

namespace Module.Writes

variable {m m' m'' : Module}

theorem refl (m : Module) : m.Writes m := ⟨rfl, fun _ fn h => ⟨fn, h, .refl⟩, rfl, rfl⟩

theorem trans (h : m.Writes m') (h' : m'.Writes m'') : m.Writes m'' where
  length := h'.length.trans h.length
  funcs := by
    intro i fn'' hi
    obtain ⟨fn', hi, hw'⟩ := h'.funcs i fn'' hi
    obtain ⟨fn, hi, hw⟩ := h.funcs i fn' hi
    exact ⟨fn, hi, hw.trans hw'⟩
  globals := h'.globals.trans h.globals
  symbols := h'.symbols.trans h.symbols

theorem names (h : m.Writes m') : m'.funcs.map (·.name) = m.funcs.map (·.name) := by
  apply List.ext_getElem?
  intro i
  rw [List.getElem?_map, List.getElem?_map]
  cases hi : m'.funcs[i]? with
  | none =>
    rw [List.getElem?_eq_none_iff, h.length] at hi
    rw [List.getElem?_eq_none hi]
  | some fn' =>
    obtain ⟨fn, hi, hw⟩ := h.funcs i fn' hi
    have hname : fn'.name = fn.name := congrArg (·.name) hw.heading
    rw [hi, Option.map_some, Option.map_some, hname]

end Module.Writes

theorem Module.Same.refl (m : Module) : m.Same m := ⟨rfl, rfl, rfl⟩

theorem Module.Same.writes {m m' : Module} (h : m.Same m') : m.Writes m' where
  length := by rw [h.funcs]
  funcs i fn' hi := ⟨fn', h.funcs ▸ hi, .refl⟩
  globals := h.globals
  symbols := h.symbols

namespace World

variable {w w' w'' : World} {f : FuncRef}

def Writes (w w' : World) : Prop := ∀ k, (w.module k).Writes (w'.module k)

theorem writes_of_eq (h : w'.modules = w.modules) : w.Writes w' := by
  intro k
  rw [module_congr h]
  exact .refl _

theorem Writes.trans (h : w.Writes w') (h' : w'.Writes w'') : w.Writes w'' :=
  fun k => (h k).trans (h' k)

theorem Writes.func? (h : w.Writes w') {fn' : Func} (hf : w'.func? f = some fn') :
    ∃ fn, w.func? f = some fn ∧ fn.Writes fn' :=
  (h f.module).funcs f.index fn' hf

theorem writes_modifyFunc {g : Func → Func} (h : (w.func f).Writes (g (w.func f))) :
    w.Writes (w.modifyFunc f g) := by
  intro k
  rw [module_modifyFunc]
  split
  next hk =>
    refine ⟨List.length_modify .., fun i fn' hi => ?_, rfl, rfl⟩
    rw [List.getElem?_modify] at hi
    obtain ⟨fn, hfn, rfl⟩ := Option.map_eq_some_iff.1 hi
    refine ⟨fn, hfn, ?_⟩
    split
    next he =>
      have hf : w.func? f = some fn := by rw [World.func?, ← hk, he, hfn]
      rw [func_eq hf] at h
      exact h
    next => exact .refl
  next => exact .refl _

theorem writes_newTemp (w : World) (f : FuncRef) (type : TypeRef) (name : String) :
    w.Writes (w.newTemp f type name).2 :=
  writes_modifyFunc (Func.Writes.refl.temp type name)

end World

namespace BuildState

variable {s s' : BuildState} {v : Option Value}

theorem Outcome.writes (h : s.Outcome v s') : s.world.Writes s'.world := by
  cases h with
  | inserted h =>
    cases h with
    | @insert s₁ i x givesValue name h =>
      refine (World.writes_of_eq h.modules).trans ?_
      have hblock (w : World) : w.Writes (w.modifyBlock x.block (·.insert x.pos x.instr)) :=
        World.writes_modifyFunc (Func.Writes.refl.instrs _ _ fun _ => ⟨rfl, rfl⟩)
      cases givesValue with
      | false => exact hblock _
      | true => exact (World.writes_newTemp _ _ _ _).trans (hblock _)
  | appended label => exact World.writes_modifyFunc (Func.Writes.refl.block _ label)
  | connected => exact World.writes_modifyFunc (Func.Writes.refl.instrs _ _ fun _ => ⟨rfl, rfl⟩)
  | moved => exact World.writes_of_eq rfl

end BuildState

theorem BuildCall.writes (call : BuildCall) (s : BuildState) : s.world.Writes (call.after s).world := by
  rcases call.outcome_or_asks s with ⟨v, h⟩ | h
  · exact h.writes
  · exact World.writes_of_eq h.modules

/-- What becomes of a module in which something is declared. -/
inductive Module.Declares (m : Module) (c : Context) (m' : Module) : Prop
  | func {name : String} {signature : TypeRef} {linkage : Linkage} {d : Declared}
    (h : m.DeclaresFunc c name signature linkage d) (hm : m' = d.module)
  | global {name : String} {type : TypeRef} {init : Option Value} {isConstant : Bool}
    {linkage : Linkage} {d : Declared}
    (h : m.DeclaresGlobal c name type init isConstant linkage d) (hm : m' = d.module)

theorem Module.Declares.of_func {m m' : Module} {c : Context} (h : m.Declares c m') {i : Nat}
    {fn : Func} (hi : m'.funcs[i]? = some fn) : m.funcs[i]? = some fn ∨
      ∃ name signature linkage serial refType result params variadic, i = m.funcs.length ∧
        c.types.lookup signature = some (.fn result params variadic) ∧
        fn = m.newFunc name signature linkage serial refType result params variadic := by
  cases h with
  | global h hm =>
    subst hm
    cases h <;> exact .inl hi
  | func h hm =>
    subst hm
    cases h with
    | found => exact .inl hi
    | made _ _ ht =>
      rcases of_getElem?_concat hi with hold | ⟨rfl, rfl⟩
      · exact .inl hold
      · exact .inr ⟨_, _, _, _, _, _, _, _, rfl, ht, rfl⟩

theorem Module.Declares.of_global {m m' : Module} {c : Context} (h : m.Declares c m') {i : Nat}
    {g : Global} (hi : m'.globals[i]? = some g) : m.globals[i]? = some g ∨
      (∀ v, g.init = some v → m.MayInit c g.type v) ∧
        ((∃ old v isConstant, m.globals[i]? = some old ∧ g = { old with init := some v, isConstant }) ∨
          i = m.globals.length ∧ g.index = i ∧ g.moduleSerial = m.serial) := by
  cases h with
  | func h hm =>
    subst hm
    cases h <;> exact .inl hi
  | global h hm =>
    subst hm
    cases h with
    | found => exact .inl hi
    | @defined index v _ _ ht _ _ hv =>
      rw [List.getElem?_set] at hi
      split at hi
      next he =>
        subst he
        split at hi
        next hlt =>
          obtain rfl := Option.some.inj hi
          have hold : m.globals[index]? = some (m.globals.getD index default) := by simp [hlt]
          refine .inr ⟨fun u hu => ?_, .inl ⟨_, v, _, hold, rfl⟩⟩
          obtain rfl := Option.some.inj hu
          exact ht ▸ hv
        next => simp at hi
      next => exact .inl hi
    | made _ _ hv =>
      rcases of_getElem?_concat hi with hold | ⟨rfl, rfl⟩
      · exact .inl hold
      · exact .inr ⟨hv, .inr ⟨rfl, rfl, rfl⟩⟩

theorem Module.Declares.serial {m m' : Module} {c : Context} (h : m.Declares c m') :
    m'.serial = m.serial := by
  cases h with
  | func h hm =>
    subst hm
    cases h <;> rfl
  | global h hm =>
    subst hm
    cases h <;> rfl

namespace World

variable {w : World}

theorem same_or_declares {o : Operation} (hb : ∀ b call, o ≠ .build b call) (k : Nat) :
    (w.module k).Same ((w.perform o).module k) ∨
      (w.contextOf k).isDisposed = false ∧
        (w.module k).Declares (w.contextOf k) ((w.perform o).module k) := by
  cases o with
  | newModule n name =>
    left
    rw [perform]
    split
    · rw [module_addModule]
      split
      next h =>
        rw [h, module, List.getD_eq_getElem?_getD, List.getElem?_eq_none (Nat.le_refl _)]
        exact ⟨rfl, rfl, rfl⟩
      next => exact .refl _
    · exact .refl _
  | declareFunc m name signature linkage =>
    rcases w.perform_declareFunc m name signature linkage with hw | ⟨d, hl, hd, hw⟩
    · rw [hw]
      exact .inl (.refl _)
    · rw [hw, module_declared (lt_of_live hl)]
      split
      next h => exact .inr ⟨h ▸ hl, .func (h ▸ hd) rfl⟩
      next => exact .inl (.refl _)
  | declareGlobal m name type init isConstant linkage =>
    rcases w.perform_declareGlobal m name type init isConstant linkage with hw | ⟨d, hl, -, hd, hw⟩
    · rw [hw]
      exact .inl (.refl _)
    · rw [hw, module_declared (lt_of_live hl)]
      split
      next h => exact .inr ⟨h ▸ hl, .global (h ▸ hd) rfl⟩
      next => exact .inl (.refl _)
  | build b call => exact absurd rfl (hb b call)
  | _ =>
    left
    rw [module_congr (modules_perform (by simp) rfl)]
    exact .refl _

theorem writes_or_declares (w : World) (o : Operation) (k : Nat) :
    (w.module k).Writes ((w.perform o).module k) ∨
      (w.contextOf k).isDisposed = false ∧
        (w.module k).Declares (w.contextOf k) ((w.perform o).module k) := by
  by_cases hb : ∃ b call, o = .build b call
  · obtain ⟨b, call, rfl⟩ := hb
    exact .inl (call.writes ⟨w, b⟩ k)
  · simp only [not_exists] at hb
    exact (same_or_declares hb k).imp_left Module.Same.writes

end World

end TypedIR
