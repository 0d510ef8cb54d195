import TypedIR.Context
import TypedIR.Proofs.Checks
import TypedIR.Proofs.Growth.Types

namespace TypedIR

namespace ConstantPool

def Grows (p p' : ConstantPool) : Prop :=
  ∀ context v k, p.lookup context v = some k → p'.lookup context v = some k

theorem Grows.refl (p : ConstantPool) : p.Grows p := fun _ _ _ h => h

theorem grows_intern (p : ConstantPool) (context : Nat) (c : Constant) :
    p.Grows (p.intern context c).2 := by
  unfold intern
  split
  · exact .refl p
  · intro context v k h
    simp only [lookup] at h ⊢
    split at h
    next hv =>
      obtain ⟨hk, ht⟩ := Option.filter_eq_some_iff.1 h
      have hlt := (List.getElem?_eq_some_iff.1 hk).1
      rw [if_pos hv, List.getElem?_append_left hlt, hk]
      simp [Option.filter, ht]
    next => simp at h

end ConstantPool

namespace Context

structure Grows (c c' : Context) : Prop where
  types : c.types.Grows c'.types
  constants : c.constants.Grows c'.constants

variable {c c' c'' : Context} {v : Value}

namespace Grows

theorem refl (c : Context) : c.Grows c := ⟨.refl _, .refl _⟩

theorem trans (h : c.Grows c') (h' : c'.Grows c'') : c.Grows c'' :=
  ⟨h.types.trans h'.types, fun context v k hv => h'.constants context v k (h.constants context v k hv)⟩

theorem id (h : c.Grows c') : c'.id = c.id := h.types.context

theorem isDisposed (h : c.Grows c') : c'.isDisposed = c.isDisposed := h.types.disposed

theorem lookupConstant (h : c.Grows c') {k : Constant} (hv : c.lookupConstant v = some k) :
    c'.lookupConstant v = some k := by
  rw [Context.lookupConstant, h.id]
  exact h.constants _ _ _ hv

end Grows

theorem of_defineName {name : String} (h : c.defineName name v = .ok c') :
    ∃ names, c' = { c with names } := by
  simp only [defineName, ite_eq_ok_iff, seq_eq_ok_iff, throw_ne_ok, false_and, and_false,
    false_or] at h
  obtain ⟨_, _, _, h⟩ := h
  split at h
  · exact ⟨_, (pure_eq_ok_iff.1 h).symm⟩
  · simp only [ite_eq_ok_iff, throw_ne_ok, pure_eq_ok_iff, and_false, or_false] at h
    obtain ⟨_, rfl⟩ := h
    exact ⟨c.names, rfl⟩

end Context

end TypedIR
