import TypedIR.Proofs.Soundness.Contexts
import TypedIR.Proofs.Soundness.Incoming

namespace TypedIR

namespace BuildState

variable {s s' : BuildState} {v : Option Value}

theorem Asks.advances (h : s.Asks s') : s.world.Advances s'.world := by
  induction h with
  | refl => exact .refl _
  | request _ call ih => exact ih.trans (World.advances_requestType call.keeps_request)

theorem Inserts.advances (h : s.Inserts v s') : s.world.Advances s'.world := by
  cases h with
  | @insert s' i x givesValue name h hp hr ht =>
    obtain ⟨block, hplan⟩ := planned_of_plan hp
    refine h.advances.trans (hplan.advances_commit (fun _ => hr) fun htidy hl => ?_)
    exact ht (htidy.closed _ hl)

theorem Outcome.advances (h : s.Outcome v s') : s.world.Advances s'.world := by
  cases h with
  | inserted h => exact h.advances
  | appended label _ _ hi => exact World.advances_addBlock s.world _ label hi
  | connected hp =>
    obtain ⟨fn, x, i, h⟩ := planned_of_planIncoming hp
    exact h.advances
  | moved b hm => exact .refl _

end BuildState

theorem BuildCall.advances (call : BuildCall) (s : BuildState) :
    s.world.Advances (call.after s).world := by
  rcases call.outcome_or_asks s with ⟨v, h⟩ | h
  · exact h.advances
  · exact h.advances

end TypedIR
