import TypedIR.Proofs.Constant.Content
import TypedIR.Proofs.Registry.Steps
import TypedIR.Proofs.Soundness.Basic

namespace TypedIR

theorem TypeCall.keeps_request (q : TypeCall) : TypeRequest.Keeps q.request := by
  cases hq : q.isSetBody with
  | false => exact TypeRequest.inherited_keeps.call hq
  | true =>
    cases q with
    | setBody t fields packed =>
      exact (TypeRequest.keeps_setBody t fields packed).bind fun _ => TypeRequest.keeps_pure t
    | _ => simp [isSetBody] at hq

theorem Context.of_bool {c c' : Context} {b : Bool} {v : Value} (h : c.bool b = .ok (v, c')) :
    ∃ t constants, (TypeRequest.after (TypeRequest.int 1) c.types).lookup t = some (.int 1) ∧
      (ConstantCall.unsigned (if b then 1 else 0)).request c.constants
        (TypeRequest.after (TypeRequest.int 1) c.types) t = .ok (v, constants) ∧
      c' = { c with types := TypeRequest.after (TypeRequest.int 1) c.types, constants } := by
  rw [bool] at h
  cases hq : TypeRequest.int 1 c.types with
  | error e types => simp [hq] at h
  | ok t types =>
    have he : TypeRequest.after (TypeRequest.int 1) c.types = types := by
      simp [TypeRequest.after, hq]
    simp only [hq, bind_eq_ok_iff, pure_eq_ok_iff] at h
    obtain ⟨⟨v', constants⟩, hu, h⟩ := h
    obtain ⟨rfl, rfl⟩ := Prod.mk.inj h
    exact ⟨t, constants, he ▸ TypeRequest.lookup_of_make hq, he ▸ hu, by rw [he]⟩

namespace World

structure Advances (w w' : World) : Prop where
  grows : w.Grows w'
  tidy : w.Tidy → w'.Tidy
  sound : w.Tidy → w.Sound → w'.Sound

variable {w w' w'' : World} {m n : Nat}

namespace Advances

theorem refl (w : World) : w.Advances w := ⟨.refl w, fun h => h, fun _ h => h⟩

theorem trans (h : w.Advances w') (h' : w'.Advances w'') : w.Advances w'' where
  grows := h.grows.trans h'.grows
  tidy ht := h'.tidy (h.tidy ht)
  sound ht hs := h'.sound (h.tidy ht) (h.sound ht hs)

theorem orSame {ε α : Type} {answer : Except ε (α × World)}
    (h : ∀ x, answer = .ok x → w.Advances x.2) : w.Advances (w.orSame answer) := by
  cases answer with
  | error e => exact .refl w
  | ok x => exact h x rfl

end Advances

theorem advances_of_modules_eq (h : w.Grows w') (hm : w'.modules = w.modules)
    (hc : ∀ k, (w'.context k).isDisposed = false →
      ((w.context k).isDisposed = false → (w.context k).types.Closed) → (w'.context k).types.Closed) :
    w.Advances w' where
  grows := h
  tidy ht := by
    refine ⟨fun b x hb => ?_, fun k hk => hc k hk (ht.closed k), fun k => ?_⟩
    · rw [block?, func, func?, module_congr hm] at hb
      exact ht.blocks b x hb
    · rw [module_congr hm]
      exact Nat.le_trans (ht.contexts k) h.contextCount
  sound ht hs := by
    constructor
    · intro f fn hf hl
      have hf' : w.func? f = some fn := by rwa [func?, module_congr hm] at hf
      have hlive := (h.contextOf ht (lt_of_func? hf') hl).1
      exact (hs.funcs f fn hf' hlive).mono h ht hf' hf hl
    · intro k hl g hg
      rw [module_congr hm] at hg
      by_cases hk : k < w.modules.length
      · obtain ⟨hlive, hgrows⟩ := h.contextOf ht hk hl
        exact (hs.globals k hlive g hg).mono hgrows.types
      · rw [globals_module_of_le (Nat.le_of_not_lt hk)] at hg
        exact absurd hg List.not_mem_nil

theorem advances_of_eq (hc : w'.contexts = w.contexts) (hm : w'.modules = w.modules) :
    w.Advances w' :=
  advances_of_modules_eq (grows_of_eq hc hm) hm fun k hk h => by
    rw [context_congr hc] at hk ⊢
    exact h hk

theorem advances_trace (w : World) (c : Context) (line : String) : w.Advances (w.trace c line) :=
  advances_of_eq (contexts_trace w c line) (modules_trace w c line)

theorem advances_setContext {c : Context} (h : c.isDisposed = false →
    (w.context n).isDisposed = false ∧ (w.context n).Grows c ∧
      ((w.context n).types.Closed → c.types.Closed)) : w.Advances (w.setContext n c) := by
  refine advances_of_modules_eq (grows_setContext fun hd => ⟨(h hd).1, (h hd).2.1⟩)
    (modules_setContext w n c) fun k hk hclosed => ?_
  rw [context_setContext] at hk ⊢
  split
  next he =>
    rw [if_pos he] at hk
    obtain ⟨hlive, _, hc⟩ := h hk
    rw [he.1] at hclosed
    exact hc (hclosed hlive)
  next he =>
    rw [if_neg he] at hk
    exact hclosed hk

theorem advances_setContext_of_grows {c : Context} (h : (w.context n).Grows c)
    (hc : (w.context n).types.Closed → c.types.Closed) : w.Advances (w.setContext n c) :=
  advances_setContext fun hd => ⟨h.isDisposed.symm.trans hd, h, hc⟩

theorem advances_addContext (w : World) (limit : Nat) (traces : Bool) :
    w.Advances (w.addContext limit traces).2 :=
  advances_of_modules_eq (grows_addContext w limit traces) rfl fun k hk h => by
    rw [context_addContext] at hk ⊢
    split
    next he => exact TypeRegistry.closed_empty _ _
    next he =>
      rw [if_neg he] at hk
      exact h hk

theorem advances_dispose (w : World) (n : Nat) : w.Advances (w.dispose n) := by
  rw [dispose]
  split
  · exact .refl w
  · refine (advances_setContext fun hd => ?_).trans (advances_trace _ _ _)
    simp [Context.isDisposed, Context.dispose, TypeRegistry.dispose] at hd

theorem advances_addModule (w : World) (name : String) (hn : n ≤ w.contexts.length) :
    w.Advances (w.addModule n name).2 := by
  let c : Context := { w.context n with modulesMade := (w.context n).modulesMade + 1 }
  have hfunc {f : FuncRef} {fn : Func} (h : (w.addModule n name).2.func? f = some fn) :
      w.func? f = some fn := by
    rw [func?, module_addModule] at h
    split at h
    · simp at h
    · exact h
  have hset : w.Advances (w.setContext n c) :=
    advances_setContext_of_grows ⟨.refl _, .refl _⟩ fun h => h
  have hg := grows_addModule w n name
  refine ⟨hg, fun ht => ⟨fun b x hb => ?_, fun k hk => ?_, fun k => ?_⟩, fun ht hs => ⟨?_, ?_⟩⟩
  · obtain ⟨fn, hfn, hx⟩ := func?_of_block? hb
    exact ht.blocks b x (by rw [block?, func_eq (hfunc hfn), hx])
  · rw [context_addModule] at hk ⊢
    exact (hset.tidy ht).closed k hk
  · refine Nat.le_trans ?_ hg.contextCount
    rw [module_addModule]
    split
    · exact hn
    · exact ht.contexts k
  · intro f fn hf hl
    have hlive := (hg.contextOf ht (lt_of_func? (hfunc hf)) hl).1
    exact (hs.funcs f fn (hfunc hf) hlive).mono hg ht (hfunc hf) hf hl
  · intro k hl g hgl
    rw [module_addModule] at hgl
    split at hgl
    · exact absurd hgl List.not_mem_nil
    · by_cases hk : k < w.modules.length
      · obtain ⟨hlive, hgrows⟩ := hg.contextOf ht hk hl
        exact (hs.globals k hlive g hgl).mono hgrows.types
      · rw [globals_module_of_le (Nat.le_of_not_lt hk)] at hgl
        exact absurd hgl List.not_mem_nil

theorem advances_requestType {α : Type} {q : TypeRequest α} (h : TypeRequest.Keeps q) :
    w.Advances (w.requestType n q).2 := by
  rw [requestType_snd]
  exact advances_setContext_of_grows ⟨h.grows _, .refl _⟩ (h.closed _)

theorem of_requestConstant {t : TypeRef} {q : ConstantPool.Request} {x : Value × World}
    (h : w.requestConstant n t q = .ok x) : ∃ constants,
      q (w.context n).constants (w.context n).types t = .ok (x.1, constants) ∧
        x.2 = w.setContext n { w.context n with constants } := by
  rw [requestConstant, bind_eq_ok_iff] at h
  obtain ⟨⟨v, constants⟩, hq, h⟩ := h
  obtain rfl := pure_eq_ok_iff.1 h
  exact ⟨constants, hq, rfl⟩

theorem of_requestBool {b : Bool} {x : Value × World} (h : w.requestBool n b = .ok x) :
    ∃ c, (w.context n).bool b = .ok (x.1, c) ∧ x.2 = w.setContext n c := by
  rw [requestBool, bind_eq_ok_iff] at h
  obtain ⟨⟨v, c⟩, hc, h⟩ := h
  obtain rfl := pure_eq_ok_iff.1 h
  exact ⟨c, hc, rfl⟩

theorem of_defineName {name : String} {v : Value} {x : Unit × World}
    (h : w.defineName n name v = .ok x) : x.2 = w ∨ ∃ names line,
      x.2 = (w.setContext n { w.context n with names }).trace (w.context n) line := by
  rw [defineName, bind_eq_ok_iff] at h
  obtain ⟨c, hc, h⟩ := h
  split at h
  · obtain rfl := pure_eq_ok_iff.1 h
    exact .inl rfl
  · obtain rfl := pure_eq_ok_iff.1 h
    obtain ⟨names, rfl⟩ := Context.of_defineName hc
    exact .inr ⟨names, _, rfl⟩

theorem advances_requestConstant {call : ConstantCall} {t : TypeRef} {x : Value × World}
    (hx : w.requestConstant n t call.request = .ok x) : w.Advances x.2 := by
  obtain ⟨constants, hq, hw⟩ := of_requestConstant hx
  rw [hw]
  exact advances_setContext_of_grows ⟨.refl _, ConstantPool.grows_of_request call hq⟩ fun h => h

theorem advances_requestBool {b : Bool} {x : Value × World} (hx : w.requestBool n b = .ok x) :
    w.Advances x.2 := by
  obtain ⟨c, hc, hw⟩ := of_requestBool hx
  have hk : TypeRequest.Keeps (TypeRequest.int 1) := TypeRequest.keeps_make rfl
  obtain ⟨t, constants, -, hu, rfl⟩ := Context.of_bool hc
  rw [hw]
  exact advances_setContext_of_grows
    ⟨hk.grows _, ConstantPool.grows_of_request (.unsigned _) hu⟩ (hk.closed _)

theorem advances_defineName {name : String} {v : Value} {x : Unit × World}
    (hx : w.defineName n name v = .ok x) : w.Advances x.2 := by
  rcases of_defineName hx with hw | ⟨names, line, hw⟩
  · exact hw ▸ .refl w
  · have hg : (w.context n).Grows { w.context n with names } := ⟨.refl _, .refl _⟩
    rw [hw]
    exact (advances_setContext_of_grows hg fun h => h).trans (advances_trace _ _ _)

end World

end TypedIR
