import TypedIR.Proofs.Building.Outcome
import TypedIR.Proofs.Constant.Canonical
import TypedIR.Proofs.Registry.Key
import TypedIR.Proofs.Soundness.Declarations

namespace TypedIR

namespace Context

/-- The values are the constants that were answered on the way, the last one first. -/
inductive Steps (c : Context) : List Value → Context → Prop
  | refl : c.Steps [] c
  | type {vs : List Value} {c' : Context} (h : c.Steps vs c') (call : TypeCall) :
    c.Steps vs { c' with types := TypeRequest.after call.request c'.types }
  | constant {vs : List Value} {c' : Context} {t : TypeRef} {call : ConstantCall} {v : Value}
    {constants : ConstantPool} (h : c.Steps vs c')
    (hr : call.request c'.constants c'.types t = .ok (v, constants)) :
    c.Steps (v :: vs) { c' with constants }
  | names {vs : List Value} {c' : Context} (h : c.Steps vs c') (names : List (String × Value)) :
    c.Steps vs { c' with names }
  | counts {vs : List Value} {c' : Context} {modulesMade funcsMade : Nat} (h : c.Steps vs c')
    (hm : c'.modulesMade ≤ modulesMade) (hf : c'.funcsMade ≤ funcsMade) :
    c.Steps vs { c' with modulesMade, funcsMade }

variable {c c' c'' : Context} {vs vs' : List Value} {v : Value} {k : Constant}

namespace Steps

theorem trans (h : c.Steps vs c') (h' : c'.Steps vs' c'') : c.Steps (vs' ++ vs) c'' := by
  induction h' with
  | refl => exact h
  | type _ call ih => exact ih.type call
  | constant _ hr ih => exact ih.constant hr
  | names _ names ih => exact ih.names names
  | counts _ hm hf ih => exact ih.counts hm hf

theorem modulesMade_le (h : c.Steps vs c') : c.modulesMade ≤ c'.modulesMade := by
  induction h with
  | refl => exact Nat.le_refl _
  | counts _ hm _ ih => exact Nat.le_trans ih hm
  | type _ _ ih | constant _ _ ih | names _ _ ih => exact ih

theorem funcsMade_le (h : c.Steps vs c') : c.funcsMade ≤ c'.funcsMade := by
  induction h with
  | refl => exact Nat.le_refl _
  | counts _ _ hf ih => exact Nat.le_trans ih hf
  | type _ _ ih | constant _ _ ih | names _ _ ih => exact ih

theorem grows (h : c.Steps vs c') : c.Grows c' := by
  induction h with
  | refl => exact .refl c
  | type _ call ih => exact ih.trans ⟨call.keeps_request.grows _, .refl _⟩
  | constant _ hr ih => exact ih.trans ⟨.refl _, ConstantPool.grows_of_request _ hr⟩
  | names _ _ ih | counts _ _ _ ih => exact ⟨ih.types, ih.constants⟩

theorem closed (h : c.Steps vs c') (hc : c.types.Closed) : c'.types.Closed := by
  induction h with
  | refl => exact hc
  | type _ call ih => exact call.keeps_request.closed _ ih
  | constant _ _ ih | names _ _ ih | counts _ _ _ ih => exact ih

theorem wellFormed (h : c.Steps vs c') (hc : c.constants.WellFormed c.types) :
    c'.constants.WellFormed c'.types := by
  induction h with
  | refl => exact hc
  | type _ call ih => exact ih.mono (call.keeps_request.grows _)
  | constant _ hr ih =>
    obtain ⟨-, d, payload, hd, hp, he⟩ := ConstantPool.of_request hr
    have hmade := ih.make hd hp
    rwa [← congrArg Prod.snd he] at hmade
  | names _ _ ih | counts _ _ _ ih => exact ih

theorem context_of_mem (h : c.Steps vs c') (hv : v ∈ vs) : v.type.context = c.id := by
  induction h with
  | refl => exact absurd hv List.not_mem_nil
  | constant hs hr ih =>
    rcases List.mem_cons.1 hv with rfl | hv
    · obtain ⟨-, d, payload, hd, -, he⟩ := ConstantPool.of_request hr
      obtain ⟨i, rfl, -⟩ := ConstantPool.of_make he
      exact (TypeRegistry.context_of_owns (TypeRegistry.owns_iff.2 ⟨d, hd⟩)).trans hs.grows.id
    · exact ih hv
  | type _ _ ih | names _ _ ih | counts _ _ _ ih => exact ih hv

theorem lookupConstant_of_mem (h : c.Steps vs c') (hv : v ∈ vs) :
    v.isFunction = false ∧ (c'.lookupConstant v).isSome := by
  have hstep {c₁ c₂ : Context} (hg : c₁.Grows c₂)
      (hk : v.isFunction = false ∧ (c₁.lookupConstant v).isSome) :
      v.isFunction = false ∧ (c₂.lookupConstant v).isSome := by
    obtain ⟨k, hk'⟩ := Option.isSome_iff_exists.1 hk.2
    exact ⟨hk.1, Option.isSome_iff_exists.2 ⟨k, hg.lookupConstant hk'⟩⟩
  induction h with
  | refl => exact absurd hv List.not_mem_nil
  | type h call ih => exact hstep (refl.type call).grows (ih hv)
  | @constant _ c₁ t call u constants hs hr ih =>
    rcases List.mem_cons.1 hv with rfl | hv
    · obtain ⟨-, d, payload, -, -, he⟩ := ConstantPool.of_request hr
      obtain ⟨i, rfl, hk, -⟩ := ConstantPool.of_make he
      exact ⟨rfl, Option.isSome_iff_exists.2 ⟨⟨t, payload⟩, ConstantPool.lookup_const hk⟩⟩
    · exact hstep (refl.constant hr).grows (ih hv)
  | names _ names ih => exact ih hv
  | counts _ hm hf ih => exact ih hv

theorem mem_of_lookupConstant (h : c.Steps vs c') (hf : v.isFunction = false)
    (hv : (c'.lookupConstant v).isSome) : (c.lookupConstant v).isSome ∨ v ∈ vs := by
  induction h with
  | refl => exact .inl hv
  | type h call ih =>
    refine ih ?_
    rwa [lookupConstant, Context.id, (call.keeps_request.grows _).context] at hv
  | @constant _ c₁ t call u constants hs hr ih =>
    obtain ⟨-, d, payload, -, -, he⟩ := ConstantPool.of_request hr
    obtain ⟨i, hu, hi, hp | ⟨rfl, -, hp⟩⟩ := ConstantPool.of_make he
    · obtain rfl : constants = c₁.constants := hp
      exact (ih hv).imp_right (List.mem_cons_of_mem u)
    · obtain ⟨k, hk⟩ := Option.isSome_iff_exists.1 hv
      obtain ⟨hkind, hscope, hpos, hk, ht⟩ := ConstantPool.lookup_eq_some_iff.1 hk
      rw [hp, List.getElem?_append] at hk
      split at hk
      next hlt =>
        have hold : c₁.lookupConstant v = some k :=
          ConstantPool.lookup_eq_some_iff.2 ⟨hkind, hscope, hpos, hk, ht⟩
        exact (ih (Option.isSome_iff_exists.2 ⟨k, hold⟩)).imp_right (List.mem_cons_of_mem u)
      next hge =>
        -- A constant that is new in the pool is the one that was answered.
        have hlast := (List.getElem?_eq_some_iff.1 hk).1
        obtain rfl : k = ⟨t, payload⟩ := List.mem_singleton.1 (List.mem_of_getElem? hk)
        have hid : v.id = c₁.constants.size + 1 := by
          simp only [List.length_singleton] at hlast
          rw [ConstantPool.size]
          omega
        have hvu : v = u := by
          obtain ⟨kind, type, id, scope, isFunction⟩ := v
          subst hid hkind hscope ht hf
          exact hu.symm
        exact .inr (hvu ▸ List.mem_cons_self)
  | names _ _ ih | counts _ _ _ ih => exact ih hv

end Steps

end Context

namespace World

def answer? (w : World) : Operation → Option (Nat × Value)
  | .constant n t call => (w.requestConstant n t call.request).toOption.map fun x => (n, x.1)
  | .bool n b => (w.requestBool n b).toOption.map fun x => (n, x.1)
  | _ => none

structure Silent (w w' : World) : Prop where
  count : w'.contexts.length = w.contexts.length
  steps : ∀ k, (w.context k).Steps [] (w'.context k)

variable {w w' w'' : World} {n k m : Nat} {c : Context} {vs : List Value}

theorem Silent.trans (h : w.Silent w') (h' : w'.Silent w'') : w.Silent w'' where
  count := h'.count.trans h.count
  steps k := (h.steps k).trans (h'.steps k)

theorem silent_of_eq (h : w'.contexts = w.contexts) : w.Silent w' where
  count := by rw [h]
  steps k := by
    rw [context_congr h]
    exact .refl

theorem silent_setContext (h : (w.context n).Steps [] c) : w.Silent (w.setContext n c) where
  count := by simp
  steps k := by
    rw [context_setContext]
    split
    next he => exact he.1 ▸ h
    next => exact .refl

theorem silent_defineName {name : String} {v : Value} {x : Unit × World}
    (h : w.defineName n name v = .ok x) : w.Silent x.2 := by
  rcases of_defineName h with hw | ⟨names, line, hw⟩
  · exact silent_of_eq (congrArg World.contexts hw)
  · rw [hw]
    exact (silent_setContext (.names .refl names)).trans (silent_of_eq (contexts_trace _ _ _))

theorem silent_declared {d : Declared} (h : (w.contextOf m).Steps [] d.context) :
    w.Silent (w.declared m d) :=
  (silent_setContext h).trans (silent_of_eq (contexts_declared w m d))

theorem silent_declareFunc {name : String} {signature : TypeRef} {linkage : Linkage} {d : Declared}
    (h : (w.module m).DeclaresFunc (w.contextOf m) name signature linkage d) :
    w.Silent (w.declared m d) := by
  refine silent_declared ?_
  cases h with
  | found => exact .refl
  | made _ _ _ ha =>
    obtain rfl := TypeRequest.after_pointer ha
    exact (Context.Steps.refl.type (.pointer 0)).counts (Nat.le_refl _) (Nat.le_succ _)

theorem silent_declareGlobal {name : String} {type : TypeRef} {init : Option Value}
    {isConstant : Bool} {linkage : Linkage} {d : Declared}
    (h : (w.module m).DeclaresGlobal (w.contextOf m) name type init isConstant linkage d) :
    w.Silent (w.declared m d) := by
  refine silent_declared ?_
  cases h with
  | found => exact .refl
  | defined => exact .refl
  | made _ _ _ ha =>
    obtain rfl := TypeRequest.after_pointer ha
    exact .type .refl (.pointer 0)

end World

namespace BuildState

variable {s s' : BuildState} {v : Option Value}

theorem Asks.silent (h : s.Asks s') : s.world.Silent s'.world := by
  induction h with
  | refl => exact World.silent_of_eq rfl
  | request _ call ih =>
    refine ih.trans ?_
    rw [World.requestType_snd]
    exact World.silent_setContext (.type .refl call)

theorem Outcome.silent (h : s.Outcome v s') : s.world.Silent s'.world := by
  cases h with
  | inserted h =>
    cases h with
    | @insert s₁ i x givesValue name h =>
      refine h.silent.trans (World.silent_of_eq ?_)
      cases givesValue <;> rfl
  | appended => exact World.silent_of_eq rfl
  | connected => exact World.silent_of_eq rfl
  | moved => exact World.silent_of_eq rfl

end BuildState

theorem BuildCall.silent (call : BuildCall) (s : BuildState) : s.world.Silent (call.after s).world := by
  rcases call.outcome_or_asks s with ⟨v, h⟩ | h
  · exact h.silent
  · exact h.silent

namespace World

variable {w : World} {n k : Nat}

theorem of_orSame {ε α : Type} {P : World → Prop} {answer : Except ε (α × World)} (hw : P w)
    (h : ∀ x, answer = .ok x → P x.2) : P (w.orSame answer) := by
  cases answer with
  | error e => exact hw
  | ok x => exact h x rfl

theorem silent_perform (o : Operation) (hn : ∀ limit traces, o ≠ .newContext limit traces)
    (hd : ∀ n, o ≠ .dispose n) (ha : w.answer? o = none) : w.Silent (w.perform o) := by
  cases o with
  | newContext limit traces => exact absurd rfl (hn limit traces)
  | dispose n => exact absurd rfl (hd n)
  | newModule n name =>
    rw [perform]
    split
    · exact (silent_setContext (.counts .refl (Nat.le_succ _) (Nat.le_refl _))).trans (silent_of_eq rfl)
    · exact silent_of_eq rfl
  | type n call =>
    rw [perform, requestType_snd]
    exact silent_setContext (.type .refl call)
  | constant n t call =>
    rw [answer?] at ha
    rw [perform]
    cases hr : w.requestConstant n t call.request with
    | ok x => simp [hr, Except.toOption] at ha
    | error e => exact silent_of_eq rfl
  | bool n b =>
    rw [answer?] at ha
    rw [perform]
    cases hr : w.requestBool n b with
    | ok x => simp [hr, Except.toOption] at ha
    | error e => exact silent_of_eq rfl
  | defineName n name v => exact of_orSame (silent_of_eq rfl) fun _ h => silent_defineName h
  | declareFunc m name signature linkage =>
    rcases w.perform_declareFunc m name signature linkage with hw | ⟨d, -, hd, hw⟩
    · rw [hw]
      exact silent_of_eq rfl
    · rw [hw]
      exact silent_declareFunc hd
  | declareGlobal m name type init isConstant linkage =>
    rcases w.perform_declareGlobal m name type init isConstant linkage with hw | ⟨d, -, -, hd, hw⟩
    · rw [hw]
      exact silent_of_eq rfl
    · rw [hw]
      exact silent_declareGlobal hd
  | build builder call => exact call.silent ⟨w, builder⟩
  | verify m => exact silent_of_eq (contexts_trace _ _ _)
  | submit m c b =>
    rw [perform, submit]
    split
    · exact silent_of_eq rfl
    · split
      · exact silent_of_eq (contexts_trace _ _ _)
      · exact silent_of_eq (contexts_trace _ _ _)

theorem steps_setContext {c : Context} {vs : List Value} (hl : (w.context n).isDisposed = false)
    (h : (w.context n).Steps vs c) (k : Nat) :
    (w.context k).Steps (if k = n then vs else []) ((w.setContext n c).context k) := by
  have hn : 0 < n ∧ n ≤ w.contexts.length := valid_of_live hl
  by_cases hk : k = n
  · subst hk
    simpa [context_setContext, hn] using h
  · simp only [context_setContext, hk, false_and, if_false]
    exact .refl

theorem of_answer_constant {t : TypeRef} {call : ConstantCall} {v : Value}
    (h : w.answer? (.constant n t call) = some (k, v)) : k = n ∧ ∃ constants,
      call.request (w.context n).constants (w.context n).types t = .ok (v, constants) ∧
      w.perform (.constant n t call) = w.setContext n { w.context n with constants } := by
  rw [answer?] at h
  cases hr : w.requestConstant n t call.request with
  | error e => simp [hr, Except.toOption] at h
  | ok x =>
    obtain ⟨rfl, rfl⟩ : n = k ∧ x.1 = v := by simpa [hr, Except.toOption] using h
    obtain ⟨constants, hq, hw⟩ := of_requestConstant hr
    exact ⟨rfl, constants, hq, by rw [perform, hr, orSame, hw]⟩

theorem of_answer_bool {b : Bool} {v : Value} (h : w.answer? (.bool n b) = some (k, v)) :
    k = n ∧ ∃ c, (w.context n).bool b = .ok (v, c) ∧ w.perform (.bool n b) = w.setContext n c := by
  rw [answer?] at h
  cases hr : w.requestBool n b with
  | error e => simp [hr, Except.toOption] at h
  | ok x =>
    obtain ⟨rfl, rfl⟩ : n = k ∧ x.1 = v := by simpa [hr, Except.toOption] using h
    obtain ⟨c, hc, hw⟩ := of_requestBool hr
    exact ⟨rfl, c, hc, by rw [perform, hr, orSame, hw]⟩

theorem steps_of_answer {o : Operation} {v : Value} (h : w.answer? o = some (n, v)) :
    (w.context n).isDisposed = false ∧ (w.perform o).contexts.length = w.contexts.length ∧
      ∀ k, (w.context k).Steps (if k = n then [v] else []) ((w.perform o).context k) := by
  cases o with
  | constant n' t call =>
    obtain ⟨rfl, constants, hq, he⟩ := of_answer_constant h
    have hl := (ConstantPool.of_request hq).1
    rw [he]
    exact ⟨hl, by simp, steps_setContext hl (.constant .refl hq)⟩
  | bool n' b =>
    obtain ⟨rfl, c, hc, he⟩ := of_answer_bool h
    obtain ⟨t, constants, -, hu, rfl⟩ := Context.of_bool hc
    have htype := Context.Steps.refl (c := w.context n).type (.int 1)
    have hl := htype.grows.isDisposed.symm.trans (ConstantPool.of_request hu).1
    rw [he]
    exact ⟨hl, by simp, steps_setContext hl (htype.constant hu)⟩
  | _ => simp [answer?] at h

theorem context_dispose (w : World) (n k : Nat) :
    (w.dispose n).context k = w.context k ∨ k = n ∧ (w.dispose n).context k = (w.context k).dispose := by
  rw [dispose]
  split
  · exact .inl rfl
  · rw [context_congr (contexts_trace _ _ _), context_setContext]
    split
    next h => exact .inr ⟨h.1, by rw [h.1]⟩
    next => exact .inl rfl

theorem length_contexts_dispose (w : World) (n : Nat) :
    (w.dispose n).contexts.length = w.contexts.length := by
  rw [dispose]
  split
  · rfl
  · rw [contexts_trace, length_contexts_setContext]

theorem context_perform (w : World) (o : Operation) (hk : k ≤ w.contexts.length) :
    (∃ vs, (w.context k).Steps vs ((w.perform o).context k) ∧
      ∀ v, v ∈ vs ↔ w.answer? o = some (k, v)) ∨
    o = .dispose k ∧ (w.perform o).context k = (w.context k).dispose := by
  cases ha : w.answer? o with
  | some x =>
    obtain ⟨n, v⟩ := x
    refine .inl ⟨_, (steps_of_answer ha).2.2 k, fun u => ?_⟩
    by_cases hkn : k = n
    · simp [hkn, eq_comm]
    · simp [hkn, Ne.symm hkn]
  | none =>
    have hsteps (h : (w.context k).Steps [] ((w.perform o).context k)) :
        ∃ vs, (w.context k).Steps vs ((w.perform o).context k) ∧
          ∀ v, v ∈ vs ↔ (none : Option (Nat × Value)) = some (k, v) := ⟨[], h, by simp⟩
    cases o with
    | newContext limit traces =>
      refine .inl (hsteps ?_)
      rw [perform, context_addContext, if_neg (by omega)]
      exact .refl
    | dispose n =>
      rcases context_dispose w n k with h | ⟨rfl, h⟩
      · exact .inl (hsteps (by rw [perform, h]; exact .refl))
      · exact .inr ⟨rfl, h⟩
    | _ => exact .inl (hsteps ((silent_perform _ (by simp) (by simp) ha).steps k))

theorem steps_perform (w : World) (o : Operation) (hk : k ≤ w.contexts.length)
    (hl : ((w.perform o).context k).isDisposed = false) :
    ∃ vs, (w.context k).Steps vs ((w.perform o).context k) ∧
      ∀ v, v ∈ vs ↔ w.answer? o = some (k, v) := by
  rcases context_perform w o hk with h | ⟨-, he⟩
  · exact h
  · rw [he] at hl
    exact nomatch hl

theorem live_foldl {os : List Operation} (hl : (w.context k).isDisposed = false)
    (h : ∀ o ∈ os, o ≠ .dispose k) : ((os.foldl perform w).context k).isDisposed = false := by
  induction os generalizing w with
  | nil => exact hl
  | cons o os ih =>
    simp only [List.forall_mem_cons] at h
    refine ih ?_ h.2
    rcases context_perform w o (valid_of_live hl).2 with ⟨vs, hs, -⟩ | ⟨he, -⟩
    · exact hs.grows.isDisposed.trans hl
    · exact absurd he h.1

theorem context_perform_of_lt {o : Operation} (hk : w.contexts.length < k)
    (hk' : k ≤ (w.perform o).contexts.length) :
    ∃ limit traces, (w.perform o).context k = .new k limit traces := by
  cases ha : w.answer? o with
  | some x => exact absurd (steps_of_answer ha).2.1 (by omega)
  | none =>
    cases o with
    | newContext limit traces =>
      have hlen : (w.perform (.newContext limit traces)).contexts.length = w.contexts.length + 1 := by
        simp [perform, addContext]
      obtain rfl : k = w.contexts.length + 1 := by omega
      exact ⟨limit, traces, by rw [perform, context_addContext, if_pos rfl]⟩
    | dispose n => exact absurd (length_contexts_dispose w n) (by rw [perform] at hk'; omega)
    | _ => exact absurd (silent_perform _ (by simp) (by simp) ha).count (by omega)

theorem Reachable.context_induction {P : Nat → Context → Prop} (h : w.Reachable)
    (hnew : ∀ k limit traces, P k (.new k limit traces))
    (hstep : ∀ k c vs c', P k c → c.Steps vs c' → P k c') (hdispose : ∀ k c, P k c → P k c.dispose) :
    ∀ k, 0 < k → k ≤ w.contexts.length → P k (w.context k) := by
  induction h with
  | empty => exact fun k hk hk' => absurd hk (by simpa using hk')
  | @perform w _ o ih =>
    intro k hk hk'
    by_cases hle : k ≤ w.contexts.length
    · rcases context_perform w o hle with ⟨vs, hs, -⟩ | ⟨-, he⟩
      · exact hstep k _ vs _ (ih k hk hle) hs
      · exact he ▸ hdispose k _ (ih k hk hle)
    · obtain ⟨limit, traces, he⟩ := context_perform_of_lt (Nat.lt_of_not_le hle) hk'
      exact he ▸ hnew k limit traces

end World

end TypedIR
