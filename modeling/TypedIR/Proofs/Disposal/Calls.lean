import TypedIR.Declare
import TypedIR.Proofs.Building.Outcome
import TypedIR.Proofs.Registry.Steps

namespace TypedIR

theorem ConstantCall.request_of_disposed {types : TypeRegistry} (h : types.disposed)
    (p : ConstantPool) (t : TypeRef) (call : ConstantCall) :
    call.request p types t = .error .disposed := by
  have htype : ConstantPool.typeOf types t = .error .disposed := by rw [ConstantPool.typeOf, if_pos h]
  cases call <;>
    simp only [request, payload, ConstantPool.signed, ConstantPool.unsigned, ConstantPool.float,
      ConstantPool.null, ConstantPool.zero, ConstantPool.undefined, ConstantPool.aggregate, htype,
      bind, Except.bind]

namespace Context

variable {c : Context} (h : c.isDisposed)
include h

theorem bool_of_disposed (b : Bool) : c.bool b = .error (.type .disposed) := by
  have hq : TypeRequest.int 1 c.types = .error .disposed c.types :=
    TypeCall.request_of_disposed h (.int 1)
  simp only [bool, hq]

theorem defineName_of_disposed (name : String) (v : Value) : c.defineName name v = .error .disposed := by
  rw [defineName, if_pos h]
  rfl

end Context

namespace Module

variable {m : Module} {c : Context} (h : c.isDisposed)
include h

theorem checkLive_of_disposed : m.checkLive c = .error (.disposed m.name) := by rw [checkLive, if_pos h]

end Module

namespace DeclareM

variable {w : World} {m : Nat} (h : (w.contextOf m).isDisposed)
include h

theorem checkLive_bind_of_disposed {α : Type} (f : Unit → DeclareM α) :
    (check m Module.checkLive >>= f) w = .error (.disposed (w.module m).name) w := by
  simp only [Bind.bind, EStateM.bind, check, Module.checkLive_of_disposed h]

theorem func_of_disposed (name : String) (signature : TypeRef) (linkage : Linkage) :
    func m name signature linkage w = .error (.disposed (w.module m).name) w :=
  checkLive_bind_of_disposed h _

theorem global_of_disposed (name : String) (type : TypeRef) (init : Option Value)
    (isConstant : Bool) (linkage : Linkage) :
    global m name type init isConstant linkage w = .error (.disposed (w.module m).name) w :=
  checkLive_bind_of_disposed h _

end DeclareM

namespace World

theorem requestType_of_disposed {w : World} {n : Nat} (h : (w.context n).isDisposed)
    (call : TypeCall) : w.requestType n call.request = (.error .disposed, w) := by
  simp only [requestType, TypeCall.request_of_disposed h]
  exact congrArg _ (setContext_context w n)

end World

namespace BuildM

variable {α β : Type} {s : BuildState} {x : BuildM α}

/-- The computation fails because the context is gone, and changes nothing. -/
def Refused (x : BuildM α) (s : BuildState) : Prop :=
  ∃ e, x s = .error e s ∧ e.code = .useAfterDispose

theorem Refused.bind (h : x.Refused s) (f : α → BuildM β) : (x >>= f).Refused s := by
  obtain ⟨e, he, hc⟩ := h
  refine ⟨e, ?_, hc⟩
  simp only [Bind.bind, EStateM.bind, he]

theorem Refused.map (h : x.Refused s) (g : α → β) : (g <$> x).Refused s := by
  rw [map_eq_pure_bind]
  exact h.bind _

theorem map_eq_error_iff {g : α → β} {e : BuildError} {s' : BuildState} :
    (g <$> x) s = .error e s' ↔ x s = .error e s' := by
  simp only [Functor.map, EStateM.map]
  cases x s <;> simp

theorem of_place_eq_error {f : BuildState → Except BuildError β} {cursor : β → Cursor}
    {e : BuildError} {s' : BuildState}
    (h : (check f >>= fun b => setCursor (cursor b)) s = .error e s') : f s = .error e := by
  simp only [Bind.bind, EStateM.bind, check] at h
  cases hf : f s with
  | error e' =>
    rw [hf] at h
    exact congrArg _ (EStateM.Result.error.inj h).1
  | ok b =>
    rw [hf] at h
    cases h

theorem world_after_place {f : BuildState → Except BuildError β} {cursor : β → Cursor} :
    ((check f >>= fun b => setCursor (cursor b)).after s).world = s.world := by
  simp only [after, Bind.bind, EStateM.bind, check]
  cases f s <;> rfl

variable (h : s.context.isDisposed)
include h

theorem refused_live : live.Refused s := by
  refine ⟨.disposed s.module.name, ?_, rfl⟩
  simp only [live, check, BuildState.checkLive, if_pos h]

theorem refused_request (call : TypeCall) : (request call.request).Refused s := by
  refine ⟨.type .disposed, ?_, rfl⟩
  have hd : (s.world.context s.module.context).isDisposed := h
  simp only [request, World.requestType_of_disposed hd]

theorem plan_of_disposed (i : Instr) (givesValue : Bool) :
    s.plan i givesValue = .error (.disposed s.module.name) := by
  rw [BuildState.plan, BuildState.checkLive, if_pos h]
  rfl

theorem refused_insertValue (i : Instr) (name : String) : (insertValue i name).Refused s :=
  ⟨.disposed s.module.name, by simp only [insertValue, plan_of_disposed h], rfl⟩

theorem refused_insertVoid (i : Instr) : (insertVoid i).Refused s :=
  (refused_request h .void).bind _

theorem refused_addIncoming (phi : Value) (block : BlockRef) (v : Value) :
    (addIncoming phi block v).Refused s := by
  refine ⟨.disposed s.module.name, ?_, rfl⟩
  have hp : s.planIncoming phi block v = .error (.disposed s.module.name) := by
    rw [BuildState.planIncoming, BuildState.checkLive, if_pos h]
    rfl
  simp only [addIncoming, hp]

end BuildM

namespace BuildCall

def fallible : BuildCall → Bool
  | setCursor _ | setLoc _ => false
  | _ => true

def checksLife : BuildCall → Bool
  | setCursor _ | setLoc _ | atEnd _ | before .. => false
  | binary op .. => op.category = .intBinary ∨ op.category = .floatBinary
  | _ => true

variable {c : BuildCall} {s : BuildState}

theorem refused (h : s.context.isDisposed) (hc : c.checksLife) : c.run.Refused s := by
  have hlive {α β : Type} (f : Unit → BuildM α) (g : α → β) : (g <$> (BuildM.live >>= f)).Refused s :=
    ((BuildM.refused_live h).bind f).map g
  cases c with
  | setCursor | setLoc | atEnd | before => cases hc
  | binary op a b name =>
    have hop : op.category = .intBinary ∨ op.category = .floatBinary := of_decide_eq_true hc
    rw [run, BuildM.binary, if_pos hop]
    exact (BuildM.refused_insertValue h _ name).map _
  | fneg | select => exact (BuildM.refused_insertValue h _ _).map _
  | appendBlock | icmp | fcmp | cast | alloca | load | phi => exact hlive _ _
  | addIncoming p block v => exact (BuildM.refused_addIncoming h p block v).map _
  | call | callIndirect => exact (BuildM.refused_live h).bind _
  | store | br | condbr | switch | ret | retVoid | unreachable =>
    exact (BuildM.refused_insertVoid h _).map _

theorem code_ne_useAfterDispose {e : BuildError} {s' : BuildState} (hc : c.checksLife = false)
    (he : c.run s = .error e s') : e.code ≠ .useAfterDispose := by
  intro hcode
  cases c with
  | setCursor | setLoc => cases he
  | atEnd b =>
    have he := BuildM.of_place_eq_error (BuildM.map_eq_error_iff.1 he)
    split at he
    · cases he
    · obtain rfl := Except.error.inj he
      cases hcode
  | before b index =>
    have he := BuildM.of_place_eq_error (BuildM.map_eq_error_iff.1 he)
    split at he
    · obtain rfl := Except.error.inj he
      cases hcode
    · split at he
      · cases he
      · obtain rfl := Except.error.inj he
        cases hcode
  | binary op a b name =>
    have hop : ¬ (op.category = .intBinary ∨ op.category = .floatBinary) := of_decide_eq_false hc
    rw [run, BuildM.map_eq_error_iff, BuildM.binary, if_neg hop] at he
    obtain rfl : BuildError.notBinary op s.builder.loc = e := (EStateM.Result.error.inj he).1
    cases hcode
  | _ => cases hc

theorem after_of_refused (h : c.run.Refused s) : c.after s = s := by
  obtain ⟨e, he, -⟩ := h
  rw [after, BuildM.after, he]

theorem world_after_of_disposed (h : s.context.isDisposed) : (c.after s).world = s.world := by
  cases hc : c.checksLife with
  | true => rw [after_of_refused (refused h hc)]
  | false =>
    cases c with
    | setCursor | setLoc => rfl
    | atEnd | before =>
      rw [after, run, BuildM.after_map]
      exact BuildM.world_after_place
    | binary op a b name =>
      have hop : ¬ (op.category = .intBinary ∨ op.category = .floatBinary) := of_decide_eq_false hc
      rw [after, run, BuildM.after_map, BuildM.binary, if_neg hop]
      rfl
    | _ => cases hc

end BuildCall

end TypedIR
