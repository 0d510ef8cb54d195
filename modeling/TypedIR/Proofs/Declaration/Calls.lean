import TypedIR.Proofs.Growth.Worlds
import TypedIR.Proofs.Operation.Basic
import TypedIR.Proofs.Registry.Asking

namespace TypedIR

theorem Func.foldl_addParam (params : List TypeRef) (f : Func) :
    params.foldl Func.addParam f = { f with
      params := f.params ++ (params.zipIdx f.temps.length).map fun p => ⟨p.1, p.2⟩
      temps := f.temps ++ params.map (⟨·, ""⟩) } := by
  induction params generalizing f with
  | nil => simp
  | cons t params ih => simp [ih, addParam, newTemp]

/-- What a declaration comes to: the place of the symbol, the context and module afterwards, and the
line for the trace if anything is new. -/
structure Declared where
  index : Nat
  context : Context
  module : Module
  line : Option String := none

namespace World

variable {w : World} {m : Nat}

theorem lt_of_live (h : (w.contextOf m).isDisposed = false) : m < w.modules.length := by
  by_contra hm
  have hd : w.module m = default := by
    rw [module, List.getD_eq_getElem?_getD, List.getElem?_eq_none (Nat.le_of_not_lt hm)]
    rfl
  rw [contextOf, hd] at h
  exact Bool.noConfusion h

theorem setContext_setContext (w : World) (n : Nat) (c c' : Context) :
    (w.setContext n c).setContext n c' = w.setContext n c' := by
  cases n <;> simp [setContext]

theorem contextOf_setContext (hl : (w.contextOf m).isDisposed = false) (c : Context) :
    (w.setContext (w.module m).context c).contextOf m = c := by
  rw [contextOf, module_congr (modules_setContext w _ c), context_setContext,
    if_pos ⟨rfl, valid_of_live hl⟩]

def declared (w : World) (m : Nat) (d : Declared) : World :=
  let w' := (w.setContext (w.module m).context d.context).setModule m d.module
  match d.line with
  | none => w'
  | some line => w'.trace d.context line

theorem declared_self (w : World) (m index : Nat) :
    w.declared m { index, context := w.contextOf m, module := w.module m } = w := by
  have hmodule : w.setModule m (w.module m) = w := by
    simp only [setModule, module, set_getD]
  rw [declared, contextOf, setContext_context, hmodule]

theorem modules_declared (w : World) (m : Nat) (d : Declared) :
    (w.declared m d).modules = w.modules.set m d.module := by
  have h : ((w.setContext (w.module m).context d.context).setModule m d.module).modules =
      w.modules.set m d.module := congrArg (·.set m d.module) (modules_setContext _ _ _)
  rw [declared]
  split
  · exact h
  · exact (modules_trace _ _ _).trans h

theorem contexts_declared (w : World) (m : Nat) (d : Declared) :
    (w.declared m d).contexts = (w.setContext (w.module m).context d.context).contexts := by
  rw [declared]
  split
  · rfl
  · exact contexts_trace _ _ _

theorem module_declared (hm : m < w.modules.length) (d : Declared) (k : Nat) :
    (w.declared m d).module k = if k = m then d.module else w.module k := by
  have h : (w.declared m d).module k = (w.setModule m d.module).module k :=
    module_congr (modules_declared w m d) k
  rw [h, module_setModule w hm]

theorem contextOf_declared {d : Declared} (hl : (w.contextOf m).isDisposed = false)
    (hc : d.module.context = (w.module m).context) : (w.declared m d).contextOf m = d.context := by
  rw [contextOf, module_declared (lt_of_live hl), if_pos rfl, hc, context_congr (contexts_declared w m d),
    context_setContext, if_pos ⟨rfl, valid_of_live hl⟩]

end World

namespace Module

variable {m : Module} {c : Context} {name : String} {linkage : Linkage} {d : Declared}

theorem newFunc_eq (m : Module) (name : String) (signature : TypeRef) (linkage : Linkage)
    (serial : Nat) (refType result : TypeRef) (params : List TypeRef) (variadic : Bool) :
    m.newFunc name signature linkage serial refType result params variadic = {
      name, type := signature, retType := result, variadic, linkage, serial
      params := params.zipIdx.map fun p => ⟨p.1, p.2⟩
      temps := params.map (⟨·, ""⟩)
      moduleSerial := m.serial, index := m.funcs.length, refType } := by
  simp [newFunc, Func.foldl_addParam]

theorem newFunc_index (m : Module) (name : String) (signature : TypeRef) (linkage : Linkage)
    (serial : Nat) (refType result : TypeRef) (params : List TypeRef) (variadic : Bool) :
    (m.newFunc name signature linkage serial refType result params variadic).index =
      m.funcs.length := by
  rw [newFunc_eq]

theorem checkLive_iff : m.checkLive c = .ok () ↔ c.isDisposed = false := by
  cases h : c.isDisposed <;> simp [checkLive, h]

structure MayInit (m : Module) (c : Context) (type : TypeRef) (v : Value) : Prop where
  type : v.type = type
  known : v.kind = .const ∧ (c.lookupConstant v).isSome ∨ (m.symbolName? v).isSome

theorem checkInit_iff {type : TypeRef} {v : Value} :
    m.checkInit c name type v = .ok () ↔ m.MayInit c type v := by
  have hsymbol : (m.symbolName? v).isSome → v.kind = .global := fun h =>
    (symbolName?_isSome_iff.1 h).1
  simp only [checkInit, ite_eq_ok_iff, seq_eq_ok_iff, throw_ne_ok, false_and, and_false, false_or,
    Classical.not_not]
  constructor
  · rintro ⟨ht, h⟩
    refine ⟨ht, ?_⟩
    cases hk : v.kind with
    | const =>
      refine .inl ⟨rfl, ?_⟩
      simpa [hk, ite_eq_ok_iff, Option.isSome_iff_ne_none] using h
    | global =>
      right
      simpa [hk, ite_eq_ok_iff, Option.isSome_iff_ne_none] using h
    | _ => simp [hk] at h
  · rintro ⟨ht, ⟨hk, h⟩ | h⟩
    · simp [ht, hk, Option.isSome_iff_ne_none.1 h]
    · simp [ht, hsymbol h, Option.isSome_iff_ne_none.1 h]

inductive DeclaresFunc (m : Module) (c : Context) (name : String) (signature : TypeRef)
    (linkage : Linkage) : Declared → Prop
  | found {index : Nat} (hs : m.symbols.lookup name = some (.func index))
    (ht : (m.funcs.getD index default).type = signature) :
    DeclaresFunc m c name signature linkage { index, context := c, module := m }
  | made {result : TypeRef} {params : List TypeRef} {variadic : Bool} {refType : TypeRef}
    {types : TypeRegistry} {line : Option String} (hn : name ≠ "")
    (hs : m.symbols.lookup name = none)
    (ht : c.types.lookup signature = some (.fn result params variadic))
    (ha : TypeRequest.pointer 0 c.types = .ok refType types) :
    DeclaresFunc m c name signature linkage {
      index := m.funcs.length
      context := { c with types, funcsMade := c.funcsMade + 1 }
      module := { m with
        funcs := m.funcs ++
          [m.newFunc name signature linkage (c.funcsMade + 1) refType result params variadic]
        symbols := m.symbols ++ [(name, .func m.funcs.length)] }
      line }

inductive DeclaresGlobal (m : Module) (c : Context) (name : String) (type : TypeRef)
    (init : Option Value) (isConstant : Bool) (linkage : Linkage) : Declared → Prop
  | found {index : Nat} (hs : m.symbols.lookup name = some (.global index))
    (ht : (m.globals.getD index default).type = type)
    (hi : ∀ v, init = some v → (m.globals.getD index default).init = some v) :
    DeclaresGlobal m c name type init isConstant linkage { index, context := c, module := m }
  | defined {index : Nat} {v : Value} {line : Option String}
    (hs : m.symbols.lookup name = some (.global index))
    (ht : (m.globals.getD index default).type = type) (hi : init = some v)
    (hg : (m.globals.getD index default).init = none) (hv : m.MayInit c type v) :
    DeclaresGlobal m c name type init isConstant linkage {
      index, context := c
      module := { m with
        globals := m.globals.set index
          { m.globals.getD index default with init := some v, isConstant } }
      line }
  | made {refType : TypeRef} {types : TypeRegistry} {line : Option String} (hn : name ≠ "")
    (hs : m.symbols.lookup name = none) (hv : ∀ v, init = some v → m.MayInit c type v)
    (ha : TypeRequest.pointer 0 c.types = .ok refType types) :
    DeclaresGlobal m c name type init isConstant linkage {
      index := m.globals.length, context := { c with types }
      module := { m with
        globals := m.globals ++
          [⟨name, type, init, isConstant, linkage, m.serial, m.globals.length, refType⟩]
        symbols := m.symbols ++ [(name, .global m.globals.length)] }
      line }

end Module

namespace DeclareM

variable {α β : Type} {m : Nat} {w : World} {post : α → World → Prop}

/-- A declaration that answers leaves what is asked of it; one that fails leaves the world as it was. -/
def Meets (x : DeclareM α) (w : World) (post : α → World → Prop) : Prop :=
  match x w with
  | .ok a w' => post a w'
  | .error _ w' => w' = w

theorem Meets.of_ok {x : DeclareM α} {a : α} {w' : World} (hx : x w = .ok a w') (h : post a w') :
    x.Meets w post := by
  rwa [Meets, hx]

theorem Meets.of_eq_ok {x : DeclareM α} {a : α} {w' : World} (h : x.Meets w post)
    (hx : x w = .ok a w') : post a w' := by
  rwa [Meets, hx] at h

theorem Meets.after {x : DeclareM α} (h : x.Meets w post) :
    x.after w = w ∨ ∃ a, post a (x.after w) := by
  rw [Meets] at h
  rw [DeclareM.after]
  cases hx : x w with
  | ok a w' =>
    rw [hx] at h
    exact .inr ⟨a, h⟩
  | error e w' =>
    rw [hx] at h
    exact .inl h

theorem Meets.of_eq_error {x : DeclareM α} {e : DeclareError} {w' : World} (h : x.Meets w post)
    (hx : x w = .error e w') : w' = w := by
  rwa [Meets, hx] at h

theorem meets_throw (e : DeclareError) : (throw e : DeclareM α).Meets w post := rfl

theorem meets_throw_bind (e : DeclareError) (f : β → DeclareM α) :
    ((throw e : DeclareM β) >>= f).Meets w post := rfl

theorem get_bind (f : World → DeclareM α) : (get >>= f) w = f w w := rfl

theorem meets_get_bind {f : World → DeclareM α} (h : (f w).Meets w post) :
    (get >>= f).Meets w post := h

theorem check_bind {f : Module → Context → Except DeclareError β} {g : β → DeclareM α} {b : β}
    (h : f (w.module m) (w.contextOf m) = .ok b) : (check m f >>= g) w = g b w := by
  simp only [Bind.bind, EStateM.bind, check, h]

theorem meets_check_bind {f : Module → Context → Except DeclareError β} {g : β → DeclareM α}
    (hg : ∀ b, f (w.module m) (w.contextOf m) = .ok b → (g b).Meets w post) :
    (check m f >>= g).Meets w post := by
  cases h : f (w.module m) (w.contextOf m) with
  | error e =>
    simp only [Meets, Bind.bind, EStateM.bind, check, h]
  | ok b =>
    rw [Meets, check_bind h]
    exact hg b h

theorem addressType_bind {f : TypeRef → DeclareM α} {t : TypeRef} {types : TypeRegistry}
    (h : TypeRequest.pointer 0 (w.contextOf m).types = .ok t types) : (addressType m >>= f) w =
      f t (w.setContext (w.module m).context { w.contextOf m with types }) := by
  rw [World.contextOf] at h
  simp only [Bind.bind, EStateM.bind, addressType, World.requestType, h]
  rfl

theorem meets_addressType_bind {f : TypeRef → DeclareM α}
    (hf : ∀ t types, TypeRequest.pointer 0 (w.contextOf m).types = .ok t types →
      ∃ a w', f t (w.setContext (w.module m).context { w.contextOf m with types }) = .ok a w' ∧
        post a w') :
    (addressType m >>= f).Meets w post := by
  cases h : TypeRequest.pointer 0 (w.contextOf m).types with
  | ok t types =>
    obtain ⟨a, w', ha, hpost⟩ := hf t types h
    exact .of_ok ((addressType_bind h).trans ha) hpost
  | error e types =>
    -- A pointer type that is refused leaves the types as they were.
    obtain rfl := (TypeRequest.makesOne_make _).refused h
    rw [World.contextOf] at h
    simp only [Meets, Bind.bind, EStateM.bind, addressType, World.requestType, h]
    exact World.setContext_context w _

theorem modifyGet_bind {g : World → β × World} {f : β → DeclareM α} :
    (modifyGet g >>= f) w = f (g w).1 (g w).2 := rfl

theorem modify_bind {g : World → World} {f : PUnit → DeclareM α} :
    (modify g >>= f) w = f () (g w) := rfl

theorem nextSerial_bind (hl : (w.contextOf m).isDisposed = false) (c : Context)
    (f : Nat → DeclareM α) : (nextSerial m >>= f) (w.setContext (w.module m).context c) =
      f (c.funcsMade + 1)
        (w.setContext (w.module m).context { c with funcsMade := c.funcsMade + 1 }) := by
  rw [nextSerial, modifyGet_bind]
  simp only [World.contextOf_setContext hl, World.module_congr (World.modules_setContext w _ c),
    World.setContext_setContext]

theorem made_eq_ok (hl : (w.contextOf m).isDisposed = false) (c : Context) {g : Module → Module}
    (hg : ∀ x, (g x).context = x.context) (line : Context → String) (index : Nat) (a : α) :
    (do modifyModule m g; trace m line; pure a : DeclareM α)
        (w.setContext (w.module m).context c) =
      .ok a (w.declared m ⟨index, c, g (w.module m), some (line c)⟩) := by
  have hc : ((w.setContext (w.module m).context c).setModule m (g (w.module m))).contextOf m = c :=
    World.contextOf_declared (d := ⟨index, c, g (w.module m), none⟩) hl (hg _)
  rw [modifyModule, trace, modify_bind, modify_bind, World.module_congr (World.modules_setContext w _ _),
    hc, World.declared]
  rfl

theorem changed_eq_ok (hl : (w.contextOf m).isDisposed = false) {g : Module → Module}
    (hg : ∀ x, (g x).context = x.context) (line : Context → String) (index : Nat) (a : α) :
    (do modifyModule m g; trace m line; pure a : DeclareM α) w =
      .ok a (w.declared m ⟨index, w.contextOf m, g (w.module m), some (line (w.contextOf m))⟩) := by
  have h := made_eq_ok hl (w.contextOf m) hg line index a
  rwa [World.contextOf, World.setContext_context] at h

theorem func_meets (name : String) (signature : TypeRef) (linkage : Linkage) :
    (func m name signature linkage).Meets w fun f w' => ∃ d, (w.contextOf m).isDisposed = false ∧
      (w.module m).DeclaresFunc (w.contextOf m) name signature linkage d ∧ f = ⟨m, d.index⟩ ∧
      w' = w.declared m d := by
  rw [func]
  refine meets_check_bind fun _ hl => ?_
  have hl := Module.checkLive_iff.1 hl
  dsimp only
  split
  next => exact meets_throw_bind _ _
  next hn =>
    refine meets_get_bind (meets_get_bind ?_)
    split
    next => exact meets_throw _
    next result params variadic ht =>
      split
      next => exact meets_throw _
      next index hs =>
        split
        next => exact meets_throw_bind _ _
        next he =>
          exact ⟨_, hl, .found hs (Classical.not_not.1 he), rfl, (w.declared_self m index).symm⟩
      next hs =>
        refine meets_addressType_bind fun refType types ha => ?_
        simp only [nextSerial_bind hl, Module.newFunc_index]
        exact ⟨_, _, made_eq_ok hl _ (by exact fun _ => rfl) _ (w.module m).funcs.length _,
          _, hl, .made (by simpa using hn) hs ht ha, rfl, rfl⟩
    next => exact meets_throw _

theorem exists_func_iff {name : String} {signature : TypeRef} (linkage : Linkage)
    (hl : (w.contextOf m).isDisposed = false) (hs : (w.module m).symbols.lookup name = none)
    (ha : ∃ t types, TypeRequest.pointer 0 (w.contextOf m).types = .ok t types) :
    (∃ f w', func m name signature linkage w = .ok f w') ↔ name.isEmpty = false ∧
      ∃ result params variadic,
        (w.contextOf m).types.lookup signature = some (.fn result params variadic) := by
  constructor
  · rintro ⟨f, w', h⟩
    obtain ⟨d, -, hd, -⟩ := (func_meets name signature linkage).of_eq_ok h
    cases hd with
    | found hs' => exact nomatch hs.symm.trans hs'
    | made hn _ ht => exact ⟨by simpa using hn, _, _, _, ht⟩
  · rintro ⟨hn, result, params, variadic, ht⟩
    obtain ⟨refType, types, ha⟩ := ha
    have hlive : (w.module m).checkLive (w.contextOf m) = .ok () := Module.checkLive_iff.2 hl
    simp only [func, check_bind hlive, hn, Bool.false_eq_true, if_false, get_bind, ht, hs,
      addressType_bind ha, nextSerial_bind hl]
    exact ⟨_, _, made_eq_ok hl _ (by exact fun _ => rfl) _ (w.module m).funcs.length _⟩

section Globals

variable {name : String} {type : TypeRef} {init : Option Value} {isConstant : Bool}
  {linkage : Linkage}

theorem placeGlobal_meets (hl : (w.contextOf m).isDisposed = false)
    (ho : (w.contextOf m).types.owns type) (hn : name ≠ "")
    (hv : ∀ v, init = some v → (w.module m).MayInit (w.contextOf m) type v) :
    (placeGlobal m name type init isConstant linkage).Meets w fun index w' => ∃ d,
      (w.contextOf m).isDisposed = false ∧ (w.contextOf m).types.owns type ∧
        (w.module m).DeclaresGlobal (w.contextOf m) name type init isConstant linkage d ∧
          index = d.index ∧ w' = w.declared m d := by
  rw [placeGlobal]
  refine meets_get_bind (meets_get_bind ?_)
  split
  next => exact meets_throw _
  next index hs =>
    dsimp only
    split
    next => exact meets_throw_bind _ _
    next he =>
      have ht := Classical.not_not.1 he
      split
      next => exact ⟨_, hl, ho, .found hs ht (by simp), rfl, (w.declared_self m index).symm⟩
      next v u hu =>
        split
        next => exact meets_throw_bind _ _
        next hne =>
          refine ⟨_, hl, ho, .found hs ht fun _ hi => ?_, rfl, (w.declared_self m index).symm⟩
          exact hu.trans (Classical.not_not.1 hne ▸ hi)
      next v hu =>
        exact .of_ok (changed_eq_ok hl (by exact fun _ => rfl) _ index _)
          ⟨_, hl, ho, .defined hs ht rfl hu (hv v rfl), rfl, rfl⟩
  next hs =>
    refine meets_addressType_bind fun refType types ha => ?_
    exact ⟨_, _, made_eq_ok hl _ (by exact fun _ => rfl) _ (w.module m).globals.length _,
      _, hl, ho, .made hn hs hv ha, rfl, rfl⟩

theorem global_meets : (global m name type init isConstant linkage).Meets w fun index w' => ∃ d,
    (w.contextOf m).isDisposed = false ∧ (w.contextOf m).types.owns type ∧
      (w.module m).DeclaresGlobal (w.contextOf m) name type init isConstant linkage d ∧
      index = d.index ∧ w' = w.declared m d := by
  rw [global]
  refine meets_check_bind fun _ hl => ?_
  have hl := Module.checkLive_iff.1 hl
  dsimp only
  split
  next => exact meets_throw_bind _ _
  next hn =>
    refine meets_get_bind ?_
    split
    next ho =>
      split
      next =>
        have hn : name ≠ "" := by simpa using hn
        cases init with
        | none => exact placeGlobal_meets hl ho hn (by simp)
        | some v =>
          refine meets_check_bind fun _ hi => placeGlobal_meets hl ho hn fun _ he => ?_
          exact Option.some.inj he ▸ Module.checkInit_iff.1 hi
      next => exact meets_throw_bind _ _
    next => exact meets_throw_bind _ _

end Globals

end DeclareM

namespace World

theorem perform_declareFunc (w : World) (m : Nat) (name : String) (signature : TypeRef)
    (linkage : Linkage) : w.perform (.declareFunc m name signature linkage) = w ∨
      ∃ d, (w.contextOf m).isDisposed = false ∧
        (w.module m).DeclaresFunc (w.contextOf m) name signature linkage d ∧
        w.perform (.declareFunc m name signature linkage) = w.declared m d := by
  rcases (DeclareM.func_meets name signature linkage).after with h | ⟨_, d, hl, hd, -, hw⟩
  · exact .inl h
  · exact .inr ⟨d, hl, hd, hw⟩

theorem perform_declareGlobal (w : World) (m : Nat) (name : String) (type : TypeRef)
    (init : Option Value) (isConstant : Bool) (linkage : Linkage) :
    w.perform (.declareGlobal m name type init isConstant linkage) = w ∨
      ∃ d, (w.contextOf m).isDisposed = false ∧ (w.contextOf m).types.owns type ∧
        (w.module m).DeclaresGlobal (w.contextOf m) name type init isConstant linkage d ∧
        w.perform (.declareGlobal m name type init isConstant linkage) = w.declared m d := by
  rcases DeclareM.global_meets.after with h | ⟨_, d, hl, ho, hd, -, hw⟩
  · exact .inl h
  · exact .inr ⟨d, hl, ho, hd, hw⟩

end World

end TypedIR
