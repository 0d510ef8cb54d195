import TypedIR.Proofs.Safety.Phases
import TypedIR.Proofs.Verify.Switches

namespace TypedIR

open Relation (ReflTransGen)

namespace Unguarded

def firstFindings (w : World) (m : Nat) (g : FlowGraph BlockRef) :
    List Phase → Access (List Violation)
  | [] => pure []
  | p :: rest => do
    match ← run w m g p with
    | [] => firstFindings w m g rest
    | vs => return vs

def violations (w : World) (m : Nat) : Access (List Violation) :=
  if (w.contextOf m).isDisposed then pure [.atModule (.contextDisposed (w.module m).name)]
  else do
    let g ← flowGraph w m
    firstFindings w m g Phase.all

def verify (w : World) (m : Nat) : Access (Except (List Violation) Certificate) := do
  match ← violations w m with
  | [] => return .ok (w.certificate m)
  | vs => return .error vs

variable {w : World} {m : Nat}

theorem run_eq (hc : (w.contextOf m).types.Admitted) (hp : w.PointersValid m) {p : Phase}
    (h : p = .phi → w.checkStructure m = []) : run w m (w.flowGraph m) p = .ok (p.run w m) := by
  -- The phase of the phis follows pointers that only the phase of the structure knows not to be null.
  cases p with
  | shape => exact checkStructure_eq hp
  | dominance => exact checkDominance_eq
  | phi => exact checkPhiEdges_eq (h rfl)
  | ownership => exact checkOwnership_eq
  | typing => exact checkTyping_eq hp hc

theorem firstFindings_eq {ps : List Phase}
    (h : ∀ p ∈ ps, run w m (w.flowGraph m) p = .ok (p.run w m)) :
    firstFindings w m (w.flowGraph m) ps = .ok (w.firstFindings m ps) := by
  induction ps with
  | nil => rfl
  | cons p ps ih =>
    rw [List.forall_mem_cons] at h
    rw [firstFindings, World.firstFindings, bind_of_eq_ok h.1]
    cases p.run w m with
    | nil => exact ih h.2
    | cons v vs => rfl

theorem violations_eq (hc : (w.contextOf m).types.Admitted) (hp : w.PointersValid m) :
    violations w m = .ok (w.violations m) := by
  rw [violations, World.violations]
  cases (w.contextOf m).isDisposed with
  | true => rfl
  | false =>
    rw [if_neg Bool.false_ne_true, if_neg Bool.false_ne_true, bind_of_eq_ok (flowGraph_eq hp)]
    have hshape : run w m (w.flowGraph m) .shape = .ok (w.checkStructure m) := checkStructure_eq hp
    rw [Phase.all, firstFindings, World.firstFindings, bind_of_eq_ok hshape, Phase.run]
    cases h : w.checkStructure m with
    | cons v vs => rfl
    | nil => exact firstFindings_eq fun _ _ => run_eq hc hp fun _ => h

end Unguarded

namespace TypeRegistry

variable {r s : TypeRegistry}

theorem admitted_of_lookup_eq_none (h : ∀ t, r.lookup t = none) : r.Admitted := by
  intro t d hd
  rw [h] at hd
  cases hd

theorem Admitted.runs (hr : r.Admitted) (h : ReflTransGen Step r s) : s.Admitted := by
  induction h with
  | refl => exact hr
  | tail _ h ih => exact fun t d hd hn => h.admits_of_lookup ih hd hn

end TypeRegistry

theorem Context.Steps.admitted {c c' : Context} {vs : List Value} (h : c.Steps vs c')
    (hc : c.types.Admitted) : c'.types.Admitted := by
  induction h with
  | refl => exact hc
  | type _ call ih => exact ih.runs (call.runs _)
  | constant _ _ ih | names _ _ ih | counts _ _ _ ih => exact ih

namespace World

variable {w : World} {m : Nat}

theorem Arises.admitted (h : w.Arises) (k : Nat) : (w.context k).types.Admitted :=
  h.context_induction (P := fun c => c.types.Admitted)
    (TypeRegistry.admitted_of_lookup_eq_none fun _ => TypeRegistry.lookup_dispose _ _)
    (fun _ _ _ => TypeRegistry.admitted_of_lookup_eq_none fun _ => TypeRegistry.lookup_empty _ _ _)
    (fun _ _ _ hc hs => hs.admitted hc)
    (fun _ _ => TypeRegistry.admitted_of_lookup_eq_none fun _ => TypeRegistry.lookup_dispose _ _) k

/-- Whatever was written into modules, verification meets no fault: it comes to its verdict. -/
theorem unguarded_verify_eq (h : w.Arises) (hp : w.PointersValid m) :
    Unguarded.verify w m = .ok (w.verify m) := by
  rw [Unguarded.verify, Unguarded.bind_of_eq_ok (Unguarded.violations_eq (h.admitted _) hp),
    verify]
  cases w.violations m <;> rfl

def withInstrs (instrs : List Instr) : World :=
  ([.type 1 (.vector ⟨1, 1⟩ 4), .constant 1 ⟨1, 6⟩ .zero].foldl perform echo).modifyBlock
    ⟨⟨0, 0⟩, 0⟩ fun b => { b with instrs }

theorem arises_withInstrs (instrs : List Instr) : (withInstrs instrs).Arises :=
  (reachable_foldl (reachable_foldl .empty)).arises.write 0 _

def scrambled : World :=
  let x : Value := .param ⟨1, 1⟩ 0 1
  withInstrs [
    { op := .phi, type := ⟨1, 1⟩, result := some 70, operands := [x] },
    { op := .add, type := ⟨1, 1⟩, result := some 71, operands := [x] },
    { op := .bitcast, type := ⟨1, 1⟩, result := some 72, operands := [.const ⟨1, 6⟩ 1 1] },
    { op := .load, type := ⟨1, 1⟩, result := some 73 },
    { op := .store, type := ⟨1, 1⟩, operands := [x] },
    { op := .call, type := ⟨1, 1⟩, typeOperand := ⟨1, 3⟩ },
    { op := .call, type := ⟨1, 1⟩, typeOperand := ⟨1, 3⟩,
      operands := [.global ⟨1, 4⟩ 0 1 true, x] },
    { op := .select, type := ⟨1, 1⟩, result := some 74, operands := [x, x] },
    { op := .switch, type := ⟨1, 1⟩ }]

theorem unguarded_verify_scrambled : scrambled.Arises ∧ scrambled.PointersValid 0 ∧
    Unguarded.verify scrambled 0 = .ok (scrambled.verify 0) ∧
    (scrambled.violations 0).map (·.code) = List.replicate 9 .illTyped := by
  have hp : scrambled.PointersValid 0 := of_decide_eq_true (by cbv)
  exact ⟨arises_withInstrs _, hp, unguarded_verify_eq (arises_withInstrs _) hp, by cbv⟩

def unlinked : World :=
  withInstrs [{ op := .phi, type := ⟨1, 1⟩, operands := [.param ⟨1, 1⟩ 0 1], incoming := [none] }]

example : Unguarded.checkPhiEdges unlinked 0 (unlinked.flowGraph 0) = .error (.noBlock none) := by
  cbv

end World

end TypedIR
