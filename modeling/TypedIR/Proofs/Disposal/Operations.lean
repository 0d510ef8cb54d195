import TypedIR.Proofs.Disposal.Calls
import TypedIR.Proofs.Operation.Modules

/-! Operations after a context was disposed of. The context is empty for good. Every operation that checks
whether it lives is refused for that and changes nothing; these are all that can fail, but for the calls
that place a builder and for binary instructions with a wrong opcode. -/

namespace TypedIR

def errorCode? {ε α : Type} (code : ε → ErrorCode) : Except ε α → Option ErrorCode
  | .ok _ => none
  | .error e => some (code e)

def resultCode? {ε σ α : Type} (code : ε → ErrorCode) : EStateM.Result ε σ α → Option ErrorCode
  | .ok .. => none
  | .error e _ => some (code e)

namespace Operation

def asked? (w : World) : Operation → Option Nat
  | newContext .. | dispose _ | newModule .. => none
  | type n _ | constant n .. | bool n _ | defineName n .. => some n
  | declareFunc m .. | declareGlobal m .. | verify m | submit m .. => some (w.module m).context
  | build b call => if call.fallible then some (w.module b.module).context else none

/-- The operations that ask whether the context lives before they fail for anything else. -/
def checksLife : Operation → Bool
  | build _ call => call.checksLife
  | _ => true

end Operation

namespace World

variable {w : World} {o : Operation} {n k m : Nat}

def failure? (w : World) : Operation → Option ErrorCode
  | .newContext .. | .dispose _ | .newModule .. => none
  | .type n call => errorCode? TypeError.code (w.requestType n call.request).1
  | .constant n t call => errorCode? ConstantError.code (w.requestConstant n t call.request)
  | .bool n b => errorCode? ConstantError.code (w.requestBool n b)
  | .defineName n name v => errorCode? ContextError.code (w.defineName n name v)
  | .declareFunc m name signature linkage =>
    resultCode? DeclareError.code (DeclareM.func m name signature linkage w)
  | .declareGlobal m name type init isConstant linkage =>
    resultCode? DeclareError.code (DeclareM.global m name type init isConstant linkage w)
  | .build b call => resultCode? BuildError.code (call.run ⟨w, b⟩)
  | .verify m => errorCode? (fun vs => (Violation.summary vs).code) (w.verify m)
  | .submit m c b => errorCode? Diag.code (w.submit m c b).1

/-- The operation fails because its context is gone. Contexts, modules and builders stay as they were. -/
structure Refuses (w : World) (o : Operation) : Prop where
  failure : w.failure? o = some .useAfterDispose
  contexts : (w.perform o).contexts = w.contexts
  modules : (w.perform o).modules = w.modules
  builder : ∀ b call, o = .build b call → (call.after ⟨w, b⟩).builder = b

theorem refuses_of_perform_eq (hf : w.failure? o = some .useAfterDispose) (hp : w.perform o = w)
    (hb : ∀ b call, o ≠ .build b call) : w.Refuses o :=
  ⟨hf, by rw [hp], by rw [hp], fun b call he => absurd he (hb b call)⟩

theorem refuses_build_iff {b : Builder} {call : BuildCall}
    (h : (w.contextOf b.module).isDisposed) : w.Refuses (.build b call) ↔ call.checksLife := by
  constructor
  · intro hr
    have hf := hr.failure
    rw [failure?] at hf
    cases hrun : call.run ⟨w, b⟩ with
    | ok v s' => simp [hrun, resultCode?] at hf
    | error e s' =>
      simp only [hrun, resultCode?, Option.some.injEq] at hf
      by_contra hc
      exact BuildCall.code_ne_useAfterDispose (Bool.eq_false_iff.2 hc) hrun hf
  · intro hc
    have hr : call.run.Refused ⟨w, b⟩ := BuildCall.refused h hc
    have hs := BuildCall.after_of_refused hr
    obtain ⟨e, he, hcode⟩ := hr
    refine ⟨by simp only [failure?, he, resultCode?, hcode], by rw [perform, hs], by rw [perform, hs], ?_⟩
    rintro _ _ ⟨⟩
    rw [hs]

theorem refuses_of_disposed (h : (w.context n).isDisposed) (ho : o.asked? w = some n)
    (hc : o.checksLife) : w.Refuses o := by
  cases o with
  | newContext | dispose | newModule => cases ho
  | type k call =>
    obtain rfl := Option.some.inj ho
    have hq := requestType_of_disposed h call
    exact refuses_of_perform_eq (by rw [failure?, hq]; rfl) (by rw [perform, hq]) (by simp)
  | constant k t call =>
    obtain rfl := Option.some.inj ho
    have hq : w.requestConstant k t call.request = .error .disposed := by
      rw [requestConstant, ConstantCall.request_of_disposed h]
      rfl
    exact refuses_of_perform_eq (by rw [failure?, hq]; rfl) (by rw [perform, hq]; rfl) (by simp)
  | bool k b =>
    obtain rfl := Option.some.inj ho
    have hq : w.requestBool k b = .error (.type .disposed) := by
      rw [requestBool, Context.bool_of_disposed h]
      rfl
    exact refuses_of_perform_eq (by rw [failure?, hq]; rfl) (by rw [perform, hq]; rfl) (by simp)
  | defineName k name v =>
    obtain rfl := Option.some.inj ho
    have hq : w.defineName k name v = .error .disposed := by
      rw [defineName, Context.defineName_of_disposed h]
      rfl
    exact refuses_of_perform_eq (by rw [failure?, hq]; rfl) (by rw [perform, hq]; rfl) (by simp)
  | declareFunc m name signature linkage =>
    obtain rfl := Option.some.inj ho
    have hq := DeclareM.func_of_disposed (m := m) h name signature linkage
    exact refuses_of_perform_eq (by rw [failure?, hq]; rfl) (by rw [perform, DeclareM.after, hq])
      (by simp)
  | declareGlobal m name type init isConstant linkage =>
    obtain rfl := Option.some.inj ho
    have hq := DeclareM.global_of_disposed (m := m) h name type init isConstant linkage
    exact refuses_of_perform_eq (by rw [failure?, hq]; rfl) (by rw [perform, DeclareM.after, hq])
      (by simp)
  | build b call =>
    simp only [Operation.asked?] at ho
    split at ho
    · obtain rfl := Option.some.inj ho
      exact (refuses_build_iff h).2 hc
    · cases ho
  | verify m =>
    obtain rfl := Option.some.inj ho
    have hq : w.verify m = .error [.atModule (.contextDisposed (w.module m).name)] := by
      have hd : (w.contextOf m).isDisposed := h
      rw [verify, violations, if_pos hd]
    refine ⟨?_, contexts_trace _ _ _, modules_trace _ _ _, by simp⟩
    rw [failure?, hq]
    rfl
  | submit m c b =>
    obtain rfl := Option.some.inj ho
    have hq : w.submit m c b = (.error (w.module m).disposedDiag, w) := by
      have hd : (w.contextOf m).isDisposed := h
      simp only [submit, hd, if_true]
    exact refuses_of_perform_eq (by rw [failure?, hq]; rfl) (by rw [perform, hq]) (by simp)

theorem refuses_iff_of_disposed (h : (w.context n).isDisposed) (ho : o.asked? w = some n) :
    w.Refuses o ↔ o.checksLife := by
  refine ⟨fun hr => ?_, refuses_of_disposed h ho⟩
  cases o with
  | build b call =>
    simp only [Operation.asked?] at ho
    split at ho
    · obtain rfl := Option.some.inj ho
      exact (refuses_build_iff h).1 hr
    · cases ho
  | _ => rfl

theorem perform_of_disposed (h : (w.context n).isDisposed) (ho : o.asked? w = some n) :
    (w.perform o).contexts = w.contexts ∧ (w.perform o).modules = w.modules := by
  cases hc : o.checksLife with
  | true =>
    have hr := refuses_of_disposed h ho hc
    exact ⟨hr.contexts, hr.modules⟩
  | false =>
    cases o with
    | build b call =>
      simp only [Operation.asked?] at ho
      split at ho
      · obtain rfl := Option.some.inj ho
        -- A call that is not refused places the builder, or looks at the opcode first.
        have hw : w.perform (.build b call) = w := BuildCall.world_after_of_disposed (s := ⟨w, b⟩) h
        rw [hw]
        exact ⟨rfl, rfl⟩
      · cases ho
    | _ => cases hc

end World

structure Context.Gone (c : Context) : Prop where
  types : c.types.arena = []
  constants : c.constants.entries = []
  names : c.names = []

theorem Context.gone_dispose (c : Context) : c.dispose.Gone := ⟨rfl, rfl, rfl⟩

namespace World

variable {w : World} {o : Operation} {n k m : Nat}

theorem context_setContext_of_live (hl : (w.context n).isDisposed = false)
    (hd : (w.context k).isDisposed) (c : Context) : (w.setContext n c).context k = w.context k := by
  have hk : k ≠ n := by
    rintro rfl
    simp [hl] at hd
  rw [context_setContext, if_neg fun h => hk h.1]

theorem context_requestType (hd : (w.context k).isDisposed) (n : Nat) (call : TypeCall) :
    (w.requestType n call.request).2.context k = w.context k := by
  cases hn : (w.context n).isDisposed with
  | true => rw [requestType_of_disposed hn]
  | false =>
    rw [requestType_snd]
    exact context_setContext_of_live hn hd _

end World

namespace BuildState

variable {s s' : BuildState} {v : Option Value} {k : Nat}

theorem Asks.context_eq (h : s.Asks s') (hd : (s.world.context k).isDisposed) :
    s'.world.context k = s.world.context k := by
  induction h with
  | refl => rfl
  | request _ call ih => exact (World.context_requestType (ih ▸ hd) _ call).trans ih

theorem Outcome.context_eq (h : s.Outcome v s') (hd : (s.world.context k).isDisposed) :
    s'.world.context k = s.world.context k := by
  cases h with
  | inserted h =>
    cases h with
    | insert givesValue name h =>
      refine Eq.trans (World.context_congr ?_ k) (h.context_eq hd)
      cases givesValue <;> rfl
  | appended | connected | moved => exact World.context_congr rfl k

end BuildState

namespace World

variable {w : World} {o : Operation} {n k m : Nat}

theorem context_perform_of_disposed (o : Operation) (hk : k ≤ w.contexts.length)
    (hd : (w.context k).isDisposed) :
    ∃ count, (w.perform o).context k = { w.context k with modulesMade := count } := by
  suffices h : (∀ n name, o ≠ .newModule n name) → (w.perform o).context k = w.context k by
    by_cases ho : ∃ n name, o = .newModule n name
    · obtain ⟨n, name, rfl⟩ := ho
      rw [perform]
      split
      · rw [context_addModule, context_setContext]
        split
        next he => exact ⟨_, by rw [he.1]⟩
        next => exact ⟨_, rfl⟩
      · exact ⟨_, rfl⟩
    · exact ⟨_, h fun n name he => ho ⟨n, name, he⟩⟩
  intro hm
  cases o with
  | newModule n name => exact absurd rfl (hm n name)
  | newContext limit traces => rw [perform, context_addContext, if_neg (by omega)]
  | dispose n =>
    rcases context_dispose w n k with h | ⟨rfl, -⟩
    · exact h
    · rw [perform, dispose, if_pos hd]
  | type n call => exact context_requestType hd n call
  | constant n t call =>
    refine of_orSame (P := fun v => v.context k = w.context k) rfl fun x hx => ?_
    obtain ⟨constants, hq, hw⟩ := of_requestConstant hx
    rw [hw]
    exact context_setContext_of_live (ConstantPool.of_request hq).1 hd _
  | bool n b =>
    refine of_orSame (P := fun v => v.context k = w.context k) rfl fun x hx => ?_
    obtain ⟨c, hc, hw⟩ := of_requestBool hx
    rw [hw]
    refine context_setContext_of_live (Bool.eq_false_iff.2 fun hn => ?_) hd _
    rw [Context.bool_of_disposed hn] at hc
    cases hc
  | defineName n name v =>
    refine of_orSame (P := fun v => v.context k = w.context k) rfl fun x hx => ?_
    rcases of_defineName hx with hw | ⟨names, line, hw⟩
    · rw [hw]
    · rw [hw, context_congr (contexts_trace _ _ _)]
      refine context_setContext_of_live (Bool.eq_false_iff.2 fun hn => ?_) hd _
      rw [World.defineName, Context.defineName_of_disposed hn] at hx
      cases hx
  | declareFunc m name signature linkage =>
    rcases w.perform_declareFunc m name signature linkage with hw | ⟨d, hl, -, hw⟩
    · rw [hw]
    · rw [hw, context_congr (contexts_declared _ _ _)]
      exact context_setContext_of_live hl hd _
  | declareGlobal m name type init isConstant linkage =>
    rcases w.perform_declareGlobal m name type init isConstant linkage with hw | ⟨d, hl, -, -, hw⟩
    · rw [hw]
    · rw [hw, context_congr (contexts_declared _ _ _)]
      exact context_setContext_of_live hl hd _
  | build b call =>
    rcases call.outcome_or_asks ⟨w, b⟩ with ⟨v, h⟩ | h
    · exact h.context_eq hd
    · exact h.context_eq hd
  | verify m => exact context_congr (contexts_trace _ _ _) k
  | submit m c b =>
    apply context_congr
    rw [perform, submit]
    split
    · rfl
    · split
      · exact contexts_trace _ _ _
      · exact contexts_trace _ _ _

theorem isDisposed_perform (hk : k ≤ w.contexts.length) (hd : (w.context k).isDisposed) :
    ((w.perform o).context k).isDisposed := by
  obtain ⟨count, he⟩ := context_perform_of_disposed o hk hd
  rw [he]
  exact hd

theorem isDisposed_dispose (w : World) (n : Nat) : ((w.dispose n).context n).isDisposed := by
  rw [dispose]
  split
  next hd => exact hd
  next hl =>
    have hl : (w.context n).isDisposed = false := Bool.eq_false_iff.2 hl
    rw [context_congr (contexts_trace _ _ _), context_setContext, if_pos ⟨rfl, valid_of_live hl⟩]
    rfl

theorem isDisposed_foldl {os : List Operation} (hk : k ≤ w.contexts.length)
    (hd : (w.context k).isDisposed) : ((os.foldl perform w).context k).isDisposed := by
  induction os generalizing w with
  | nil => exact hd
  | cons o os ih =>
    have hk' := Nat.le_trans hk (advances_perform w o).grows.contextCount
    exact ih hk' (isDisposed_perform hk hd)

theorem gone_context_of_le (h : w.contexts.length < k) : (w.context k).Gone := by
  obtain ⟨k, rfl⟩ := Nat.exists_eq_succ_of_ne_zero (Nat.ne_zero_of_lt h)
  rw [context, List.getD_eq_getElem?_getD, List.getElem?_eq_none (Nat.le_of_lt_succ h)]
  exact ⟨rfl, rfl, rfl⟩

theorem Reachable.gone (h : w.Reachable) (hd : (w.context k).isDisposed) : (w.context k).Gone := by
  induction h with
  | empty => cases k <;> exact ⟨rfl, rfl, rfl⟩
  | @perform w h o ih =>
    by_cases hk : k ≤ w.contexts.length
    · cases hl : (w.context k).isDisposed with
      | true =>
        obtain ⟨count, he⟩ := context_perform_of_disposed o hk hl
        have hg := ih hl
        rw [he]
        exact ⟨hg.types, hg.constants, hg.names⟩
      | false =>
        rcases context_perform w o hk with ⟨vs, hs, -⟩ | ⟨-, he⟩
        · rw [hs.grows.isDisposed, hl] at hd
          cases hd
        · rw [he]
          exact (w.context k).gone_dispose
    · by_cases hk' : k ≤ (w.perform o).contexts.length
      · obtain ⟨limit, traces, he⟩ := context_perform_of_lt (Nat.lt_of_not_le hk) hk'
        rw [he] at hd
        cases hd
      · exact gone_context_of_le (Nat.lt_of_not_le hk')

/-- A context of which nothing can be had any more. The operations that do not check whether it lives are
the only ones that do not know. -/
structure Bars (w : World) (n : Nat) : Prop where
  refuses : ∀ o, o.asked? w = some n → (w.Refuses o ↔ o.checksLife)
  contexts : ∀ o, o.asked? w = some n → (w.perform o).contexts = w.contexts
  modules : ∀ o, o.asked? w = some n → (w.perform o).modules = w.modules
  types : ∀ t, (w.context n).types.lookup t = none
  namedStructs : ∀ name, (w.context n).types.lookupNamed name = none
  constants : ∀ v, (w.context n).lookupConstant v = none
  names : ∀ name, (w.context n).lookupName name = none

theorem Reachable.bars_of_disposed (h : w.Reachable) (hd : (w.context n).isDisposed) : w.Bars n where
  refuses _ := refuses_iff_of_disposed hd
  contexts _ ho := (perform_of_disposed hd ho).1
  modules _ ho := (perform_of_disposed hd ho).2
  types t := by simp [TypeRegistry.lookup, (h.gone hd).types]
  namedStructs name := by simp [TypeRegistry.lookupNamed, (h.gone hd).types]
  constants v := by simp [Context.lookupConstant, ConstantPool.lookup, (h.gone hd).constants]
  names name := by simp [Context.lookupName, (h.gone hd).names]

/-- Once a context was disposed of, whatever is done after that, every operation that checks for its life
is refused, nothing is changed on its behalf, and none of its handles means anything. -/
theorem Reachable.bars_of_dispose (h : w.Reachable) (hn : n ≤ w.contexts.length)
    (os : List Operation) : (os.foldl World.perform (w.perform (.dispose n))).Bars n := by
  have hd : ((w.dispose n).context n).isDisposed := isDisposed_dispose w n
  have hn' := Nat.le_trans hn (advances_perform w (.dispose n)).grows.contextCount
  exact (reachable_foldl (h.perform _)).bars_of_disposed (isDisposed_foldl hn' hd)

theorem bars_sketch : sketch.Reachable ∧ 1 ≤ sketch.contexts.length ∧
    ([.type 1 (.int 32), .newModule 1 "late"].foldl perform (sketch.perform (.dispose 1))).Bars 1 :=
  have hr : sketch.Reachable := reachable_foldl .empty
  have hn : 1 ≤ sketch.contexts.length := by decide
  ⟨hr, hn, hr.bars_of_dispose hn _⟩

theorem not_refuses_of_dispose : ¬ ∀ (w : World) (n : Nat) (o : Operation), w.Reachable →
    n ≤ w.contexts.length → o.asked? (w.perform (.dispose n)) = some n →
      (w.perform (.dispose n)).Refuses o := by
  intro h
  have hr : sketch.Reachable := reachable_foldl .empty
  have hf := (h sketch 1 (.build { module := 0 } (.atEnd ⟨⟨0, 0⟩, 0⟩)) hr (by decide) (by decide)).failure
  exact absurd hf (by decide)

end World

end TypedIR
