import TypedIR.Proofs.Declaration.Writing
import TypedIR.Proofs.Operation.Numbers

namespace TypedIR

/-- A function whose fields say what its signature says. -/
structure Func.Mirrors (types : TypeRegistry) (f : Func) : Prop where
  signature : types.lookup f.type = some (.fn f.retType (f.params.map (·.type)) f.variadic)
  temps : f.params.map (·.type) <+: f.temps.map (·.type)

section Mirrors

/-- A function whose parameters are its first temporaries, in order. -/
structure Func.Binds (f : Func) : Prop where
  ids : ∀ (i : Nat) p, f.params[i]? = some p → p.id = i
  temps : f.params.map (·.type) <+: f.temps.map (·.type)

variable {types types' : TypeRegistry} {f f' : Func} {i : Nat} {t : TypeRef} {p : Param}

theorem Func.Binds.param? (h : f.Binds) (hi : f.params[i]? = some p) :
    f.param? i = some (.param p.type i f.serial) ∧ f.tempValue? i = f.param? i := by
  have hp : f.param? i = some (.param p.type i f.serial) := by
    rw [Func.param?, hi, Option.map_some, h.ids i p hi]
  have hlt := (List.getElem?_eq_some_iff.1 hi).1
  obtain ⟨rest, he⟩ := h.temps
  have htemp : (f.temps.map (·.type))[i]? = some p.type := by
    rw [← he, List.getElem?_append_left (by simpa using hlt), List.getElem?_map, hi, Option.map_some]
  rw [List.getElem?_map, Option.map_eq_some_iff] at htemp
  obtain ⟨x, hx, ht⟩ := htemp
  refine ⟨hp, ?_⟩
  rw [hp, tempValue?, hx, Option.map_some, if_pos hlt, ht]

theorem mirrors_newFunc {result : TypeRef} {params : List TypeRef} {variadic : Bool}
    (h : types.lookup t = some (.fn result params variadic)) (m : Module) (name : String)
    (linkage : Linkage) (serial : Nat) (refType : TypeRef) :
    (m.newFunc name t linkage serial refType result params variadic).Mirrors types where
  signature := by
    have hparams : (params.zipIdx.map fun p => Param.mk p.1 p.2).map (·.type) = params := by
      simp [Function.comp_def]
    rw [Module.newFunc_eq, hparams]
    exact h
  temps := by simp [Module.newFunc_eq, Function.comp_def]

theorem binds_newFunc (m : Module) (name : String) (signature : TypeRef) (linkage : Linkage)
    (serial : Nat) (refType result : TypeRef) (params : List TypeRef) (variadic : Bool) :
    (m.newFunc name signature linkage serial refType result params variadic).Binds := by
  refine ⟨fun i p hi => ?_, by simp [Module.newFunc_eq, Function.comp_def]⟩
  rw [Module.newFunc_eq] at hi
  dsimp only at hi
  rw [List.getElem?_map, List.getElem?_zipIdx, Option.map_map, Option.map_eq_some_iff] at hi
  obtain ⟨t, -, rfl⟩ := hi
  exact Nat.zero_add i

theorem Func.Mirrors.mono (h : f.Mirrors types) (ht : types.Grows types')
    (hf : f'.heading = f.heading) (htemps : f.temps.map (·.type) <+: f'.temps.map (·.type)) :
    f'.Mirrors types' := by
  have htype : f'.type = f.type := congrArg (·.type) hf
  have hret : f'.retType = f.retType := congrArg (·.retType) hf
  have hparams : f'.params = f.params := congrArg (·.params) hf
  have hvariadic : f'.variadic = f.variadic := congrArg (·.variadic) hf
  constructor
  · rw [htype, hret, hparams, hvariadic]
    exact ht.lookup_of_not_isNamed h.signature rfl
  · rw [hparams]
    exact h.temps.trans htemps

end Mirrors

namespace World

variable {w : World} {f : FuncRef}

theorem Reachable.mirrors (h : w.Reachable) {fn : Func} (hf : w.func? f = some fn)
    (hl : (w.contextOf f.module).isDisposed = false) : fn.Mirrors (w.contextOf f.module).types := by
  induction h generalizing fn with
  | empty => exact absurd (lt_of_func? hf) (by simp)
  | @perform w h o ih =>
    have hg := (advances_perform w o).grows
    have hold (hk : f.module < w.modules.length) {gn : Func} (hgn : w.func? f = some gn)
        (he : fn.heading = gn.heading) : fn.Mirrors ((w.perform o).contextOf f.module).types := by
      obtain ⟨hl', hc⟩ := hg.contextOf h.tidy_and_sound.1 hk hl
      exact (ih hgn hl').mono hc.types he (hg.of_func? hgn hf).temps
    rcases writes_or_declares w o f.module with hs | ⟨hl', hd⟩
    · obtain ⟨gn, hgn, hw⟩ := hs.funcs f.index fn hf
      exact hold (lt_of_func? (f := f) hgn) hgn hw.heading
    · rcases hd.of_func hf with hgn | ⟨_, _, _, _, _, _, _, _, -, ht, rfl⟩
      · exact hold (lt_of_func? hgn) hgn rfl
      · have hc := (hg.contextOf h.tidy_and_sound.1 (lt_of_live hl') hl).2
        exact (mirrors_newFunc ht _ _ _ _ _).mono hc.types rfl List.prefix_rfl

theorem Reachable.binds (h : w.Reachable) {fn : Func} (hf : w.func? f = some fn) : fn.Binds := by
  induction h generalizing fn with
  | empty => exact absurd (lt_of_func? hf) (by simp)
  | @perform w h o ih =>
    rcases writes_or_declares w o f.module with hs | ⟨-, hd⟩
    · obtain ⟨gn, hgn, hw⟩ := hs.funcs f.index fn hf
      have hparams : fn.params = gn.params := congrArg (·.params) hw.heading
      have htemps := ((advances_perform w o).grows.of_func? hgn hf).temps
      exact ⟨hparams ▸ (ih hgn).ids, hparams ▸ (ih hgn).temps.trans htemps⟩
    · rcases hd.of_func hf with hgn | ⟨_, _, _, _, _, _, _, _, -, -, rfl⟩
      · exact ih hgn
      · exact binds_newFunc _ _ _ _ _ _ _ _ _

end World

end TypedIR
