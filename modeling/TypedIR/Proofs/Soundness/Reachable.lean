import TypedIR.Proofs.Soundness.Building
import TypedIR.Proofs.Soundness.Declarations
import TypedIR.Proofs.Soundness.Findings

namespace TypedIR

namespace World

variable {w : World} {m : Nat}

theorem advances_submit (w : World) (m : Nat) (c : Certificate) (b : Backend) :
    w.Advances (w.submit m c b).2 := by
  rw [submit]
  split
  · exact .refl w
  · split
    · exact advances_trace _ _ _
    · exact advances_trace _ _ _

theorem advances_perform (w : World) (o : Operation) : w.Advances (w.perform o) := by
  cases o with
  | newContext widthLimit traces => exact advances_addContext w widthLimit traces
  | dispose context => exact advances_dispose w context
  | newModule context name =>
    rw [perform]
    split
    next h => exact advances_addModule w name h.2
    next => exact .refl w
  | type context call => exact advances_requestType call.keeps_request
  | constant context t call =>
    exact .orSame fun _ h => advances_requestConstant h
  | bool context b => exact .orSame fun _ h => advances_requestBool h
  | defineName context name v => exact .orSame fun _ h => advances_defineName h
  | declareFunc m name signature linkage =>
    rcases w.perform_declareFunc m name signature linkage with hw | ⟨d, hl, hd, hw⟩
    · rw [hw]
      exact .refl w
    · rw [hw]
      exact advances_declareFunc hl hd
  | declareGlobal m name type init isConstant linkage =>
    rcases w.perform_declareGlobal m name type init isConstant linkage with hw | ⟨d, hl, ho, hd, hw⟩
    · rw [hw]
      exact .refl w
    · rw [hw]
      exact advances_declareGlobal hl ho hd
  | build builder call => exact call.advances ⟨w, builder⟩
  | verify m => exact advances_trace _ _ _
  | submit m c b => exact advances_submit w m c b

theorem grows_foldl (w : World) (os : List Operation) : w.Grows (os.foldl perform w) := by
  induction os generalizing w with
  | nil => exact .refl w
  | cons o os ih => exact (advances_perform w o).grows.trans (ih _)

theorem tidy_empty : Tidy {} where
  blocks b x h := by
    obtain ⟨fn, hf, _⟩ := func?_of_block? h
    exact absurd (lt_of_func? hf) (by simp)
  closed k hk := absurd (valid_of_live hk) (by simp; omega)
  contexts m := by
    rw [module, List.getD_nil]
    exact Nat.le_refl 0

theorem sound_empty : Sound {} where
  funcs f fn hf _ := absurd (lt_of_func? hf) (by simp)
  globals m hl := absurd (valid_of_live hl) (by simp; omega)

theorem Reachable.tidy_and_sound (h : w.Reachable) : w.Tidy ∧ w.Sound := by
  induction h with
  | empty => exact ⟨tidy_empty, sound_empty⟩
  | @perform w _ o ih =>
    have ha := advances_perform w o
    exact ⟨ha.tidy ih.1, ha.sound ih.1 ih.2⟩

/-- Whatever was built, verification finds at most that it is not finished. -/
theorem Reachable.code_mem_unfinished (h : w.Reachable) {vs : List Violation}
    (hl : (w.contextOf m).isDisposed = false) (hv : w.verify m = .error vs) :
    ∀ v ∈ vs, v.code ∈ VerifyCode.unfinished := by
  intro v hmem
  refine h.tidy_and_sound.2.code_of_mem_violations hl ?_
  rw [verify] at hv
  split at hv
  · simp at hv
  · exact Except.error.inj hv ▸ hmem

def sketch : World :=
  [.newContext 64 false, .newModule 1 "sketch", .type 1 .void, .type 1 (.fn ⟨1, 1⟩ [] false),
    .declareFunc 0 "main" ⟨1, 2⟩ .exported, .declareFunc 0 "helper" ⟨1, 2⟩ .internal,
    .build ⟨0, {}, {}, none⟩ (.appendBlock ⟨0, 0⟩ "entry")].foldl perform {}

theorem reachable_foldl {os : List Operation} (h : w.Reachable) : (os.foldl perform w).Reachable := by
  induction os generalizing w with
  | nil => exact h
  | cons o os ih => exact ih (h.perform o)

theorem code_mem_unfinished_sketch : sketch.Reachable ∧ (sketch.contextOf 0).isDisposed = false ∧
    ∃ vs, sketch.verify 0 = .error vs ∧ vs.map (·.code) = [.emptyBlock, .missingBody] ∧
      ∀ v ∈ vs, v.code ∈ VerifyCode.unfinished := by
  have hr : sketch.Reachable := reachable_foldl .empty
  have hl : (sketch.contextOf 0).isDisposed = false := by decide
  have hc : (sketch.violations 0).map (·.code) = [.emptyBlock, .missingBody] := by decide
  have hv : sketch.verify 0 = .error (sketch.violations 0) := by
    rw [verify]
    split
    next h => simp [h] at hc
    next => rfl
  exact ⟨hr, hl, _, hv, hc, hr.code_mem_unfinished hl hv⟩

end World

end TypedIR
