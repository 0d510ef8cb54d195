import TypedIR.Proofs.Operation.Contexts
import TypedIR.Proofs.Soundness.Reachable

namespace TypedIR

theorem eq_of_getElem?_concat {α : Type} {l : List α} {a b : α} {i : Nat} (h : l[i]? = none)
    (h' : (l ++ [a])[i]? = some b) : i = l.length ∧ b = a := by
  grind

theorem of_getElem?_concat {α : Type} {l : List α} {a b : α} {i : Nat} (h : (l ++ [a])[i]? = some b) :
    l[i]? = some b ∨ i = l.length ∧ b = a := by
  cases hold : l[i]? with
  | none => exact .inr (eq_of_getElem?_concat hold h)
  | some c =>
    rw [List.getElem?_append_left (List.getElem?_eq_some_iff.1 hold).1] at h
    exact .inl (hold ▸ h)

def Operation.module? : Operation → Option Nat
  | .declareFunc m .. | .declareGlobal m .. => some m
  | .build b _ => some b.module
  | _ => none

namespace World

variable {w w' : World} {m k : Nat}

theorem Tidy.keepsBlocks (h : w.Tidy) (m : Nat) : w.KeepsBlocks m := fun b x _ hx => h.blocks b x hx

theorem module_modifyFunc_of_ne (w : World) {f : FuncRef} (hk : k ≠ f.module) (g : Func → Func) :
    (w.modifyFunc f g).module k = w.module k := by
  rw [module_modifyFunc, if_neg hk]

theorem module_setModule_of_ne (w : World) (hk : k ≠ m) (x : Module) :
    (w.setModule m x).module k = w.module k := by
  by_cases hm : m < w.modules.length
  · rw [module_setModule w hm, if_neg hk]
  · rw [setModule_of_le (Nat.le_of_not_lt hm)]

theorem module_declared_of_ne (w : World) (hk : k ≠ m) (d : Declared) :
    (w.declared m d).module k = w.module k := by
  have h : (w.declared m d).module k = (w.setModule m d.module).module k :=
    module_congr (modules_declared w m d) k
  rw [h, module_setModule_of_ne w hk]

end World

namespace BuildState

variable {s s' : BuildState} {v : Option Value} {k : Nat}

theorem Asks.module (h : s.Asks s') (k : Nat) : s'.world.module k = s.world.module k :=
  World.module_congr h.modules k

theorem Asks.isDisposed (h : s.Asks s') : s'.context.isDisposed = s.context.isDisposed := by
  rw [BuildState.context, BuildState.context, World.contextOf, World.contextOf, h.module, h.builder]
  exact (h.silent.steps _).grows.isDisposed

theorem Outcome.module_eq (h : s.Outcome v s') (hb : s.world.KeepsBlocks k)
    (hk : k = s.builder.module → s.context.isDisposed) : s'.world.module k = s.world.module k := by
  have hne (hl : s.context.isDisposed = false) : k ≠ s.builder.module := fun he => by
    simp [hl] at hk
    exact hk he
  cases h with
  | inserted h =>
    cases h with
    | @insert s₁ i x givesValue name h hp =>
      obtain ⟨block, hplan⟩ := planned_of_plan hp
      have hne := hne (h.isDisposed ▸ hplan.live)
      have hfunc : k ≠ x.func.module := by
        rw [hplan.module, h.builder]
        exact hne
      -- A block of another module would belong to a function of the builder's module.
      have hblock : k ≠ x.block.func.module := by
        rintro rfl
        have hfound : s.world.block? x.block = some block := by
          rw [← hplan.found]
          simp only [World.block?, World.func, World.func?, h.module]
        have hparent := hplan.parent.symm.trans (hb x.block block rfl hfound)
        exact hfunc (congrArg FuncRef.module (Option.some.inj hparent)).symm
      rw [← h.module]
      cases givesValue with
      | false => exact World.module_modifyFunc_of_ne _ hblock _
      | true =>
        exact (World.module_modifyFunc_of_ne _ hblock _).trans (World.module_modifyFunc_of_ne _ hfunc _)
  | @appended f label hl hm => exact World.module_modifyFunc_of_ne _ (hm ▸ hne hl) _
  | connected hp =>
    obtain ⟨fn, x, i, hplan⟩ := planned_of_planIncoming hp
    exact World.module_modifyFunc_of_ne _ (hplan.module ▸ hne hplan.live) _
  | moved => rfl

end BuildState

theorem BuildCall.module_eq {call : BuildCall} {s : BuildState} {k : Nat} (hb : s.world.KeepsBlocks k)
    (hk : k = s.builder.module → s.context.isDisposed) :
    (call.after s).world.module k = s.world.module k := by
  rcases call.outcome_or_asks s with ⟨v, h⟩ | h
  · exact h.module_eq hb hk
  · exact h.module k

namespace World

variable {w : World} {m k : Nat} {o : Operation}

theorem modules_perform (hn : ∀ n name, o ≠ .newModule n name) (ho : o.module? = none) :
    (w.perform o).modules = w.modules := by
  cases o with
  | newModule n name => exact absurd rfl (hn n name)
  | declareFunc => nomatch ho
  | declareGlobal => nomatch ho
  | build => nomatch ho
  | newContext => rfl
  | dispose n =>
    rw [perform, dispose]
    split
    · rfl
    · rw [modules_trace, modules_setContext]
  | type n call => rw [perform, requestType_snd, modules_setContext]
  | constant n t call =>
    refine of_orSame (P := (·.modules = w.modules)) rfl fun x hx => ?_
    obtain ⟨constants, -, hw⟩ := of_requestConstant hx
    rw [hw, modules_setContext]
  | bool n b =>
    refine of_orSame (P := (·.modules = w.modules)) rfl fun x hx => ?_
    obtain ⟨c, -, hw⟩ := of_requestBool hx
    rw [hw, modules_setContext]
  | defineName n name v =>
    refine of_orSame (P := (·.modules = w.modules)) rfl fun x hx => ?_
    rcases of_defineName hx with hw | ⟨names, line, hw⟩
    · rw [hw]
    · rw [hw, modules_trace, modules_setContext]
  | verify m => exact modules_trace _ _ _
  | submit m c b =>
    rw [perform, submit]
    split
    · rfl
    · split
      · exact modules_trace _ _ _
      · exact modules_trace _ _ _

theorem module_perform (hk : k < w.modules.length) (hb : w.KeepsBlocks k)
    (h : o.module? = some k → (w.contextOf k).isDisposed) : (w.perform o).module k = w.module k := by
  have hne {m : Nat} (ho : o.module? = some m) (hl : (w.contextOf m).isDisposed = false) : k ≠ m := by
    rintro rfl
    simp [h ho] at hl
  cases o with
  | newModule n name =>
    rw [perform]
    split
    · rw [module_addModule, if_neg (Nat.ne_of_lt hk)]
    · rfl
  | declareFunc m name signature linkage =>
    rcases w.perform_declareFunc m name signature linkage with hw | ⟨d, hl, -, hw⟩
    · rw [hw]
    · rw [hw, module_declared_of_ne _ (hne rfl hl)]
  | declareGlobal m name type init isConstant linkage =>
    rcases w.perform_declareGlobal m name type init isConstant linkage with hw | ⟨d, hl, -, -, hw⟩
    · rw [hw]
    · rw [hw, module_declared_of_ne _ (hne rfl hl)]
  | build b call =>
    refine BuildCall.module_eq (s := ⟨w, b⟩) hb fun he => ?_
    obtain rfl : k = b.module := he
    exact h rfl
  | _ => exact module_congr (modules_perform (by simp) rfl) k

end World

end TypedIR
