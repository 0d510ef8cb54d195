import TypedIR.Proofs.Growth.Worlds
import TypedIR.Proofs.Operation.Basic
import TypedIR.Proofs.Typing.Owned

namespace TypedIR

namespace BuildState

variable {s s' s'' : BuildState} {v : Option Value}

theorem checkLive_iff : s.checkLive = .ok () ↔ s.context.isDisposed = false := by
  cases h : s.context.isDisposed <;> simp [checkLive, h]

/-- The second state comes from the first one by requests for types. -/
inductive Asks (s : BuildState) : BuildState → Prop
  | refl : s.Asks s
  | request {s' : BuildState} (h : s.Asks s') (call : TypeCall) :
    s.Asks { s' with world := (s'.world.requestType s'.module.context call.request).2 }

namespace Asks

theorem trans (h : s.Asks s') (h' : s'.Asks s'') : s.Asks s'' := by
  induction h' with
  | refl => exact h
  | request _ call ih => exact ih.request call

theorem builder (h : s.Asks s') : s'.builder = s.builder := by
  induction h with
  | refl => rfl
  | request _ _ ih => exact ih

theorem modules (h : s.Asks s') : s'.world.modules = s.world.modules := by
  induction h with
  | refl => rfl
  | request _ call ih => rw [World.requestType_snd, World.modules_setContext, ih]

end Asks

/-- After requests for types one instruction is inserted. The answer is the value that it gives, if it
gives one. Some types of an instruction no rule looks at: they are types of the context wherever
types are made of types of it. -/
inductive Inserts (s : BuildState) : Option Value → BuildState → Prop
  | insert {s' : BuildState} {i : Instr} {x : Insertion} (givesValue : Bool) (name : String)
    (h : s.Asks s') (hp : s'.plan i givesValue = .ok x) (hr : i.result = none)
    (ht : s'.context.types.Closed → i.RestTypes s'.context.types) :
    s.Inserts
      (if givesValue then some ((BuildM.valueOf (s'.commit x givesValue name) x).getD {}) else none)
      (s'.commit x givesValue name)

theorem Asks.inserts (h : s.Asks s') (h' : s'.Inserts v s'') : s.Inserts v s'' := by
  cases h' with
  | insert givesValue name h' hp hr ht => exact .insert givesValue name (h.trans h') hp hr ht

end BuildState

namespace BuildM

variable {α β : Type} {s s' : BuildState} {x : BuildM α} {answer : α → Option Value} {i : Instr}

def OnlyAsks (x : BuildM α) (s : BuildState) : Prop := s.Asks (x.after s)

/-- A computation that answers leaves what is asked of it; one that fails has done no more than ask for
types. -/
def Meets (x : BuildM α) (s : BuildState) (post : α → BuildState → Prop) : Prop :=
  match x s with
  | .ok a s' => post a s'
  | .error _ s' => s.Asks s'

abbrev Transacts (x : BuildM α) (answer : α → Option Value) (s : BuildState) : Prop :=
  x.Meets s fun a s' => s.Inserts (answer a) s'

theorem onlyAsks_of_after_eq (h : x.after s = s) : x.OnlyAsks s := by
  rw [OnlyAsks, h]
  exact .refl

theorem OnlyAsks.bind {f : α → BuildM β} (hx : x.OnlyAsks s)
    (hf : ∀ a s', x s = .ok a s' → (f a).OnlyAsks s') : (x >>= f).OnlyAsks s := by
  rw [OnlyAsks, after] at hx ⊢
  simp only [Bind.bind, EStateM.bind]
  cases h : x s with
  | ok a s' =>
    rw [h] at hx
    exact hx.trans (hf a s' h)
  | error e s' =>
    rw [h] at hx
    exact hx

theorem OnlyAsks.transacts {f : α → BuildM β} {answer : β → Option Value} (hx : x.OnlyAsks s)
    (hf : ∀ a s', x s = .ok a s' → (f a).Transacts answer s') : (x >>= f).Transacts answer s := by
  rw [OnlyAsks, after] at hx
  simp only [Transacts, Meets, Bind.bind, EStateM.bind]
  cases h : x s with
  | error e s' =>
    rw [h] at hx
    exact hx
  | ok a s' =>
    rw [h] at hx
    have hfa := hf a s' h
    rw [Transacts, Meets] at hfa
    dsimp only
    cases hr : f a s' with
    | ok b s'' =>
      rw [hr] at hfa
      exact hx.inserts hfa
    | error e s'' =>
      rw [hr] at hfa
      exact hx.trans hfa

theorem Meets.bind_pure {g : α → β} {post : β → BuildState → Prop}
    (hx : x.Meets s fun a => post (g a)) : (x >>= fun a => pure (g a)).Meets s post := by
  simp only [Meets, Bind.bind, EStateM.bind] at hx ⊢
  cases h : x s with
  | ok a s' =>
    rw [h] at hx
    exact hx
  | error e s' =>
    rw [h] at hx
    exact hx

theorem Meets.map {g : α → β} {post : β → BuildState → Prop} (hx : x.Meets s fun a => post (g a)) :
    (g <$> x).Meets s post := by
  rw [map_eq_pure_bind]
  exact hx.bind_pure

section Checks

variable {post : α → BuildState → Prop}

theorem meets_throw (e : BuildError) : (throw e : BuildM α).Meets s post := .refl

theorem meets_throw_bind (e : BuildError) (f : β → BuildM α) :
    ((throw e : BuildM β) >>= f).Meets s post := .refl

theorem meets_check_bind {f : BuildState → Except BuildError β} {g : β → BuildM α}
    (hg : ∀ b, f s = .ok b → (g b).Meets s post) : (check f >>= g).Meets s post := by
  simp only [Meets, Bind.bind, EStateM.bind, check]
  cases h : f s with
  | error e => exact .refl
  | ok b => exact hg b h

theorem meets_live_bind {f : Unit → BuildM α}
    (hf : s.context.isDisposed = false → (f ()).Meets s post) : (live >>= f).Meets s post :=
  meets_check_bind fun _ h => hf (BuildState.checkLive_iff.1 h)

theorem meets_typeArg_bind {role : ArgRole} {t : TypeRef} {f : Unit → BuildM α}
    (hf : (f ()).Meets s post) : (typeArg role t >>= f).Meets s post :=
  meets_check_bind fun _ _ => hf

theorem meets_get_bind {g : BuildState → BuildM α} (hg : (g s).Meets s post) :
    (get >>= g).Meets s post := hg

end Checks

theorem onlyAsks_get_bind {g : BuildState → BuildM α} (hg : (g s).OnlyAsks s) :
    (get >>= g).OnlyAsks s := hg

theorem world_after_request (q : TypeRequest α) :
    (request q).after s = { s with world := (s.world.requestType s.module.context q).2 } := by
  cases h : q (s.world.context s.module.context).types <;>
    simp [after, request, World.requestType, h]

theorem onlyAsks_request (call : TypeCall) : (request call.request).OnlyAsks s := by
  rw [OnlyAsks, world_after_request]
  exact .request .refl call

theorem lookup_of_request_make {d : TypeDesc} {t : TypeRef}
    (h : request (TypeRequest.make d) s = .ok t s') : s'.context.types.lookup t = some d := by
  cases hq : TypeRequest.make d (s.world.context s.module.context).types with
  | error e types => simp [request, World.requestType, hq] at h
  | ok t' types =>
    simp only [request, World.requestType, hq, EStateM.Result.ok.injEq] at h
    obtain ⟨rfl, rfl⟩ := h
    have hk : 0 < s.module.context ∧ s.module.context ≤ s.world.contexts.length :=
      World.valid_of_live (TypeRequest.disposed_of_make hq)
    rw [BuildState.context, World.contextOf, World.module_congr (World.modules_setContext _ _ _),
      World.context_setContext]
    rw [if_pos ⟨rfl, hk⟩]
    exact TypeRequest.lookup_of_make hq

theorem transacts_insert (hr : i.result = none)
    (ht : s.context.types.Closed → i.RestTypes s.context.types) :
    (insert i).Transacts (fun _ => none) s := by
  rw [Transacts, Meets, insert]
  cases hp : s.plan i false with
  | error e => exact .refl
  | ok x => exact .insert false "" .refl hp hr ht

theorem transacts_insertValue {name : String} (hr : i.result = none)
    (ht : s.context.types.Closed → i.RestTypes s.context.types) :
    (insertValue i name).Transacts some s := by
  rw [Transacts, Meets, insertValue]
  cases hp : s.plan i true with
  | error e => exact .refl
  | ok x => exact .insert true name .refl hp hr ht

theorem transacts_insertVoid (hr : i.result = none)
    (ht : i.op.needsTypeOperand ∨ i.typeOperand.isValid = false) :
    (insertVoid i).Transacts (fun _ => none) s := by
  refine (onlyAsks_request .void).transacts fun t s' h => ?_
  refine transacts_insert hr fun _ => ⟨.inr ?_, ht⟩
  exact TypeRegistry.owns_iff.2 ⟨_, lookup_of_request_make (d := .void) h⟩

theorem transacts_binary (op : Opcode) (a b : Value) (name : String) :
    (binary op a b name).Transacts some s := by
  rw [binary]
  split
  next h =>
    refine transacts_insertValue rfl fun _ => ⟨.inl ?_, .inr rfl⟩
    cases op <;> first | rfl | simp [Opcode.category] at h
  next => exact meets_get_bind (meets_throw _)

theorem transacts_fneg (a : Value) (name : String) : (fneg a name).Transacts some s :=
  transacts_insertValue rfl fun _ => ⟨.inl rfl, .inr rfl⟩

theorem onlyAsks_truthType (t : TypeRef) : (truthType t).OnlyAsks s := by
  refine (onlyAsks_request (.int 1)).bind fun bit s' _ => onlyAsks_get_bind ?_
  split
  · exact onlyAsks_request (.vector bit _)
  · exact onlyAsks_of_after_eq rfl

theorem transacts_compare {op : Opcode} (hop : op.resultArity = .always) (predicate : Predicate)
    (a b : Value) (name : String) : (compare op predicate a b name).Transacts some s :=
  meets_live_bind fun _ => (onlyAsks_truthType _).transacts fun _ _ _ =>
    transacts_insertValue rfl fun _ => ⟨.inl hop, .inr rfl⟩

theorem transacts_cast (op : Opcode) (a : Value) (type : TypeRef) (name : String) :
    (cast op a type name).Transacts some s := by
  refine meets_live_bind fun _ => ?_
  dsimp only
  split
  next => exact meets_get_bind (meets_throw_bind _ _)
  next h =>
    refine meets_typeArg_bind (transacts_insertValue rfl fun _ => ⟨.inl ?_, .inr rfl⟩)
    cases op <;> first | rfl | simp [Opcode.category] at h

theorem transacts_alloca (allocated : TypeRef) (count : Option Value) (name : String) :
    (alloca allocated count name).Transacts some s :=
  meets_live_bind fun _ => meets_typeArg_bind <|
    (onlyAsks_request (.pointer 0)).transacts fun _ _ _ =>
      transacts_insertValue rfl fun _ => ⟨.inl rfl, .inl rfl⟩

theorem transacts_load (type : TypeRef) (p : Value) (name : String) :
    (load type p name).Transacts some s :=
  meets_live_bind fun _ => meets_typeArg_bind <|
    transacts_insertValue rfl fun _ => ⟨.inl rfl, .inr rfl⟩

theorem transacts_select (condition a b : Value) (name : String) :
    (select condition a b name).Transacts some s :=
  transacts_insertValue rfl fun _ => ⟨.inl rfl, .inr rfl⟩

theorem transacts_phi (type : TypeRef) (edges : List (Option BlockRef × Value)) (name : String) :
    (phi type edges name).Transacts some s :=
  meets_live_bind fun _ => meets_typeArg_bind <|
    transacts_insertValue rfl fun _ => ⟨.inl rfl, .inr rfl⟩

theorem transacts_callIndirect (signature : TypeRef) (callee : Value) (args : List Value)
    (name : String) : (callIndirect signature callee args name).Transacts id s := by
  refine meets_live_bind fun _ => meets_typeArg_bind <| meets_get_bind ?_
  dsimp only
  split
  next result params variadic hl =>
    have howns (hc : s.context.types.Closed) : s.context.types.owns result :=
      hc signature _ hl result (by simp [TypeDesc.parts])
    split
    next =>
      exact (transacts_insertValue rfl fun hc => ⟨.inr (howns hc), .inl rfl⟩).bind_pure
    next =>
      exact (transacts_insert rfl fun hc => ⟨.inr (howns hc), .inl rfl⟩).bind_pure
  next => exact (transacts_insertVoid rfl (.inl rfl)).bind_pure

theorem transacts_call (callee : FuncRef) (args : List Value) (name : String) :
    (call callee args name).Transacts id s := by
  refine meets_live_bind fun _ => meets_get_bind ?_
  dsimp only
  split
  next => exact meets_throw_bind _ _
  next => exact transacts_callIndirect _ _ _ _

end BuildM

theorem BuildM.after_map {α β : Type} (g : α → β) (x : BuildM α) (s : BuildState) :
    (g <$> x).after s = x.after s := by
  simp only [after, Functor.map, EStateM.map]
  cases x s <;> rfl

def BuildCall.builds : BuildCall → Bool
  | appendBlock .. | setCursor _ | setLoc _ | atEnd _ | before .. | addIncoming .. => false
  | _ => true

theorem BuildCall.transacts {c : BuildCall} (hc : c.builds) (s : BuildState) :
    c.run.Transacts id s := by
  cases c with
  | binary op a b name => exact (BuildM.transacts_binary op a b name).map
  | fneg a name => exact (BuildM.transacts_fneg a name).map
  | icmp predicate a b name => exact (BuildM.transacts_compare rfl predicate a b name).map
  | fcmp predicate a b name => exact (BuildM.transacts_compare rfl predicate a b name).map
  | cast op a type name => exact (BuildM.transacts_cast op a type name).map
  | alloca allocated count name => exact (BuildM.transacts_alloca allocated count name).map
  | load type p name => exact (BuildM.transacts_load type p name).map
  | store v p => exact (BuildM.transacts_insertVoid rfl (.inr rfl)).map
  | select condition a b name => exact (BuildM.transacts_select condition a b name).map
  | phi type edges name => exact (BuildM.transacts_phi type edges name).map
  | call callee args name => exact BuildM.transacts_call callee args name
  | callIndirect signature callee args name =>
    exact BuildM.transacts_callIndirect signature callee args name
  | br target => exact (BuildM.transacts_insertVoid rfl (.inr rfl)).map
  | condbr condition yes no => exact (BuildM.transacts_insertVoid rfl (.inr rfl)).map
  | switch scrutinee default cases => exact (BuildM.transacts_insertVoid rfl (.inr rfl)).map
  | ret v => exact (BuildM.transacts_insertVoid rfl (.inr rfl)).map
  | retVoid => exact (BuildM.transacts_insertVoid rfl (.inr rfl)).map
  | unreachable => exact (BuildM.transacts_insertVoid rfl (.inr rfl)).map
  | _ => simp [builds] at hc

namespace BuildState

/-- What a call that succeeds has done, and its answer. -/
inductive Outcome (s : BuildState) : Option Value → BuildState → Prop
  | inserted {v : Option Value} {s' : BuildState} (h : s.Inserts v s') : s.Outcome v s'
  | appended {f : FuncRef} (label : String) (hl : s.context.isDisposed = false)
    (hm : f.module = s.builder.module) (hi : (s.world.func f).linkage ≠ .imported) :
    s.Outcome none { s with world := (s.world.addBlock f label).2 }
  | connected {phi v : Value} {block : BlockRef} {site : InstrRef}
    (hp : s.planIncoming phi block v = .ok site) :
    s.Outcome none { s with world := s.world.modifyInstr site.block site.index fun i =>
      { i with incoming := i.incoming ++ [some block], operands := i.operands ++ [v] } }
  | moved (b : Builder) (hm : b.module = s.builder.module) : s.Outcome none { s with builder := b }

end BuildState

theorem BuildM.meets_appendBlock (f : FuncRef) (label : String) (s : BuildState) :
    (appendBlock f label).Meets s fun _ s' => s.Outcome none s' := by
  refine meets_live_bind fun hl => meets_check_bind fun _ h => ?_
  simp only [ite_eq_ok_iff, reduceCtorEq, and_false, false_or, Classical.not_not] at h
  exact .appended label hl h.1 h.2.1

theorem BuildM.meets_addIncoming (phi : Value) (block : BlockRef) (v : Value) (s : BuildState) :
    (addIncoming phi block v).Meets s fun _ s' => s.Outcome none s' := by
  rw [Meets, addIncoming]
  cases hp : s.planIncoming phi block v with
  | error e => exact .refl
  | ok site => exact .connected hp

theorem BuildCall.outcome (c : BuildCall) (s : BuildState) :
    c.run.Meets s fun v s' => s.Outcome v s' := by
  cases hc : c.builds with
  | true =>
    have h := c.transacts hc s
    rw [BuildM.Transacts, BuildM.Meets] at h
    rw [BuildM.Meets]
    cases hr : c.run s with
    | ok v s' =>
      rw [hr] at h
      exact .inserted h
    | error e s' =>
      rw [hr] at h
      exact h
  | false =>
    cases c with
    | appendBlock f label => exact (BuildM.meets_appendBlock f label s).map
    | setCursor c => exact BuildState.Outcome.moved { s.builder with cursor := c } rfl
    | setLoc loc => exact BuildState.Outcome.moved { s.builder with loc } rfl
    | atEnd b =>
      refine BuildM.Meets.map (BuildM.meets_check_bind fun _ _ => ?_)
      exact BuildState.Outcome.moved { s.builder with cursor := ⟨some b, none⟩ } rfl
    | before b index =>
      refine BuildM.Meets.map (BuildM.meets_check_bind fun b _ => ?_)
      exact BuildState.Outcome.moved { s.builder with cursor := ⟨some b, some index⟩ } rfl
    | addIncoming p block v => exact (BuildM.meets_addIncoming p block v s).map
    | _ => simp [builds] at hc

theorem BuildCall.outcome_or_asks (c : BuildCall) (s : BuildState) :
    (∃ v, s.Outcome v (c.after s)) ∨ s.Asks (c.after s) := by
  have h := c.outcome s
  rw [BuildCall.after, BuildM.after]
  rw [BuildM.Meets] at h
  cases hr : c.run s with
  | ok v s' =>
    rw [hr] at h
    exact .inl ⟨v, h⟩
  | error e s' =>
    rw [hr] at h
    exact .inr h

end TypedIR
