import TypedIR.Proofs.Certificate.Changes
import TypedIR.Proofs.Declaration.Writing
import TypedIR.Proofs.Operation.Numbers

namespace TypedIR

namespace Module

variable {m m' : Module} {c c' : Context} {i : Nat}

theorem MayInit.mono {t : TypeRef} {v : Value} (h : m.MayInit c t v) (hm : m.KeepsAddresses m')
    (hc : c.Grows c') : m'.MayInit c' t v := by
  refine ⟨h.type, ?_⟩
  rcases h.known with ⟨hk, hv⟩ | hv
  · obtain ⟨x, hx⟩ := Option.isSome_iff_exists.1 hv
    exact .inl ⟨hk, Option.isSome_iff_exists.2 ⟨x, hc.lookupConstant hx⟩⟩
  · exact .inr (hm.symbolName? hv)

end Module

def Change.Initializes (w : World) : Change → Prop
  | .global m i g => (∀ old, (w.module m).globals[i]? = some old → g.refType = old.refType) ∧
      ∀ v, g.init = some v → (w.module m).MayInit (w.contextOf m) g.type v
  | _ => True

namespace World

variable {w : World} {k i : Nat} {c : Change} {g : Global} {v : Value}

theorem keepsAddresses_change (hk : k < w.modules.length) (hc : c.Initializes w) :
    (w.module k).KeepsAddresses ((w.change c).module k) := by
  have hkeeps := (keeps_change w c).modules k hk
  refine ⟨hkeeps.serial, fun i f hf => ?_, fun i g hg => ?_⟩
  · obtain ⟨f', hf', hr⟩ := hkeeps.funcs i f hf
    exact ⟨f', hf', hr.refType⟩
  · cases c with
    | operation o =>
      obtain ⟨g', hg', hr⟩ := ((advances_perform w o).grows.modules k hk).globals i g hg
      exact ⟨g', hg', congrArg Value.type hr⟩
    | func f e =>
      rw [change, module_modifyFunc]
      split <;> exact ⟨g, hg, rfl⟩
    | global m j x =>
      rw [change, module_modifyGlobal]
      split
      next he =>
        subst he
        rw [List.getElem?_modify]
        by_cases hj : j = i
        · exact ⟨x, by simp [hj, hg], hc.1 g (hj ▸ hg)⟩
        · exact ⟨g, by simp [hj, hg], rfl⟩
      next => exact ⟨g, hg, rfl⟩

theorem global_change (hc : c.Initializes w) (hi : ((w.change c).module k).globals[i]? = some g) :
    (w.module k).globals[i]? = some g ∨ k < w.modules.length ∧
      ∀ v, g.init = some v → (w.module k).MayInit (w.contextOf k) g.type v := by
  cases c with
  | operation o =>
    rcases writes_or_declares w o k with hs | ⟨hl, hd⟩
    · exact .inl (hs.globals ▸ hi)
    · exact (hd.of_global hi).imp_right fun hm => ⟨lt_of_live hl, hm.1⟩
  | func f e =>
    rw [change, module_modifyFunc] at hi
    split at hi <;> exact .inl hi
  | global m j x =>
    rw [change, module_modifyGlobal] at hi
    split at hi
    next he =>
      subst he
      rw [List.getElem?_modify, Option.map_eq_map] at hi
      obtain ⟨old, hold, rfl⟩ := Option.map_eq_some_iff.1 hi
      split
      · exact .inr ⟨lt_of_global hold, hc.2⟩
      · exact .inl hold
    next => exact .inl hi

/-- Worlds where globals were given no other initial values than they could be declared with. -/
abbrev Initialized : World → Prop := ChangedBy fun w c => c.Initializes w

theorem Reachable.initialized (h : w.Reachable) : w.Initialized := h.changedBy fun _ _ => trivial

theorem Initialized.mayInit (h : w.Initialized) (hi : (w.module k).globals[i]? = some g)
    (hv : g.init = some v) (hl : (w.contextOf k).isDisposed = false) :
    (w.module k).MayInit (w.contextOf k) g.type v := by
  induction h with
  | empty => exact absurd (lt_of_global hi) (by simp)
  | @change w h c hc ih =>
    have hgrows (hk : k < w.modules.length) : (w.contextOf k).isDisposed = false ∧
        (w.contextOf k).Grows ((w.change c).contextOf k) :=
      (keeps_change w c).contextOf (fun h => h.context) h.tidy hk hl
    rcases global_change hc hi with hi | ⟨hk, hm⟩
    · have hk := lt_of_global hi
      exact (ih hi (hgrows hk).1).mono (keepsAddresses_change hk hc) (hgrows hk).2
    · exact (hm v hv).mono (keepsAddresses_change hk hc) (hgrows hk).2

end World

end TypedIR
