import TypedIR.Proofs.Declaration.Writing

namespace TypedIR

namespace Module

variable {m m' : Module} {c : Context} {i : Nat} {fn : Func} {g : Global}

/-- What the symbols of a module keep of their places is so. -/
structure Located (m : Module) : Prop where
  funcs : ∀ (i : Nat) fn, m.funcs[i]? = some fn → fn.index = i ∧ fn.moduleSerial = m.serial
  globals : ∀ (i : Nat) g, m.globals[i]? = some g → g.index = i ∧ g.moduleSerial = m.serial

namespace Located

theorem ref_func (h : m.Located) (hi : m.funcs[i]? = some fn) :
    fn.ref = .global fn.refType i m.serial true := by
  obtain ⟨hindex, hserial⟩ := h.funcs i fn hi
  rw [Func.ref, hindex, hserial]

theorem ref_global (h : m.Located) (hi : m.globals[i]? = some g) :
    g.ref = .global g.refType i m.serial false := by
  obtain ⟨hindex, hserial⟩ := h.globals i g hi
  rw [Global.ref, hindex, hserial]

theorem symbolName?_func (h : m.Located) (hi : m.funcs[i]? = some fn) :
    m.symbolName? fn.ref = some fn.name := by
  simp [h.ref_func hi, symbolName?, Value.global, hi]

theorem symbolName?_global (h : m.Located) (hi : m.globals[i]? = some g) :
    m.symbolName? g.ref = some g.name := by
  simp [h.ref_global hi, symbolName?, Value.global, hi]

theorem of_eq_default (hf : m.funcs = []) (hg : m.globals = []) : m.Located :=
  ⟨fun i fn hi => by simp [hf] at hi, fun i g hi => by simp [hg] at hi⟩

theorem writes (h : m.Located) (hs : m'.serial = m.serial) (hw : m.Writes m') : m'.Located := by
  constructor
  · intro i fn hi
    obtain ⟨old, hold, hwrites⟩ := hw.funcs i fn hi
    have hindex : fn.index = old.index := congrArg (·.index) hwrites.heading
    have hserial : fn.moduleSerial = old.moduleSerial := congrArg (·.moduleSerial) hwrites.heading
    rw [hindex, hserial, hs]
    exact h.funcs i old hold
  · intro i g hi
    rw [hw.globals] at hi
    rw [hs]
    exact h.globals i g hi

theorem declares (h : m.Located) (hd : m.Declares c m') : m'.Located := by
  constructor
  · intro i fn hi
    rw [hd.serial]
    rcases hd.of_func hi with hold | ⟨_, _, _, _, _, _, _, _, rfl, -, rfl⟩
    · exact h.funcs i fn hold
    · rw [newFunc_eq]
      exact ⟨rfl, rfl⟩
  · intro i g hi
    rw [hd.serial]
    rcases hd.of_global hi with hold | ⟨-, ⟨old, _, _, hold, rfl⟩ | ⟨-, hplace⟩⟩
    · exact h.globals i g hold
    · exact h.globals i old hold
    · exact hplace

end Located

end Module

theorem World.Reachable.located {w : World} (h : w.Reachable) (k : Nat) : (w.module k).Located := by
  induction h with
  | empty => exact .of_eq_default rfl rfl
  | @perform w _ o ih =>
    rcases writes_or_declares w o k with hw | ⟨-, hd⟩
    · by_cases hk : k < w.modules.length
      · exact ih.writes ((advances_perform w o).grows.modules k hk).serial hw
      · -- A module that is new has no symbols yet.
        have hk := Nat.le_of_not_lt hk
        refine .of_eq_default (List.length_eq_zero_iff.1 ?_) ?_
        · rw [hw.length, funcs_module_of_le hk, List.length_nil]
        · rw [hw.globals, globals_module_of_le hk]
    · exact ih.declares hd

end TypedIR
