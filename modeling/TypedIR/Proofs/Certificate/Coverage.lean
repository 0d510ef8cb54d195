import Mathlib
import TypedIR.Backend
import TypedIR.Proofs.Certificate.Transfer

/-! What a certificate is worth after changes. The fingerprint leaves out some of what verification
reads, so a certificate may cover a module that has gone wrong. -/

namespace TypedIR

namespace World

variable {w w' : World} {m : Nat} {c : Certificate}

theorem covers_iff : w.covers m c ↔ c.module = m ∧ c.serial = (w.module m).serial ∧
    (w.contextOf m).isDisposed = false ∧ (w.module m).fingerprint = c.fingerprint := by
  simp [covers, and_assoc]

theorem submit_of_covers (h : w.covers m c) (b : Backend) : (w.submit m c b).1 = b.consume w m := by
  simp [submit, h, (covers_iff.1 h).2.2.1]

theorem encoding_retType (w : World) (f : FuncRef) (t : TypeRef) (m : Nat) :
    ((w.change (.func f (.retType t))).module m).encoding = (w.module m).encoding := by
  have hfunc (fn : Func) :
      Fingerprint.func (FuncEdit.apply f fn (.retType t)) = Fingerprint.func fn := rfl
  have hlist (fs : List Func) :
      Fingerprint.list Fingerprint.func (fs.modify f.index (FuncEdit.apply f · (.retType t))) =
        Fingerprint.list Fingerprint.func fs := by
    rw [Fingerprint.list, Fingerprint.list, List.length_modify, List.flatMap_def, map_modify hfunc,
      ← List.flatMap_def]
  rw [change, module_modifyFunc]
  split
  · simp only [Module.encoding, hlist]
  · rfl

theorem covers_retType (w : World) (f : FuncRef) (t : TypeRef) :
    (w.change (.func f (.retType t))).covers m c ↔ w.covers m c := by
  have hserial : ((w.change (.func f (.retType t))).module m).serial = (w.module m).serial := by
    rw [change, module_modifyFunc]
    split <;> rfl
  have hcontext : (w.change (.func f (.retType t))).contextOf m = w.contextOf m :=
    contextOf_modifyFunc w f _ m
  have hprint : ((w.change (.func f (.retType t))).module m).fingerprint = (w.module m).fingerprint :=
    congrArg Fingerprint.fnv1a (encoding_retType w f t m)
  rw [covers_iff, covers_iff, hserial, hcontext, hprint]

theorem covers_certificate (h : (w.contextOf m).isDisposed = false) : w.covers m (w.certificate m) := by
  simp [covers_iff, certificate, h]

/-- A backend gets every module that its certificate covers. Verification would pass the module again
if what the fingerprint does not tell is still as it has to be, and only then. -/
theorem verify_iff_of_covers (hw : Leads {} w) (hv : w.verify m = .ok c) (hl : w.Leads w')
    (hc : w'.covers m c) (hfits : (w.module m).fits) (hfits' : (w'.module m).fits)
    (hhash : (w'.module m).fingerprint = (w.module m).fingerprint →
      (w'.module m).encoding = (w.module m).encoding) :
    (∀ b, (w'.submit m c b).1 = b.consume w' m) ∧
      (w'.verify m = .ok c ↔ ∀ f ∈ w'.funcRefs m, ∀ s ∈ w'.sites f, w'.InstrUntold m f s.instr) := by
  obtain ⟨hverified, rfl⟩ := verify_eq_ok_iff.1 hv
  obtain ⟨_, hserial, halive, hprint⟩ := covers_iff.1 hc
  simp only [certificate] at hserial hprint
  have ht := hw.tidy tidy_empty
  refine ⟨submit_of_covers hc, fun hv' f hf s hs => ?_, fun hu => ?_⟩
  · exact (verify_eq_ok_iff.1 hv').1.instrUntold hf hs
  · have halike := Module.alike_of_encoding_eq hfits hfits' (hhash hprint).symm
    have hcov : w.Covered w' m := ⟨hverified, hl.keeps, ht, hl.tidy ht, halike, halive, hu⟩
    refine verify_eq_ok_iff.2 ⟨hcov.verified', ?_⟩
    rw [certificate, certificate, hprint, hserial]

def echo : World :=
  [.newContext 64 false, .newModule 1 "m", .type 1 (.int 32), .type 1 (.int 64),
    .type 1 (.fn ⟨1, 1⟩ [⟨1, 1⟩] false), .declareFunc 0 "f" ⟨1, 3⟩ .exported,
    .build ⟨0, {}, {}, none⟩ (.appendBlock ⟨0, 0⟩ "entry"),
    .build ⟨0, ⟨some ⟨⟨0, 0⟩, 0⟩, none⟩, {}, none⟩ (.ret (.param ⟨1, 1⟩ 0 1))].foldl perform {}

def widened : World := echo.change (.func ⟨0, 0⟩ (.retType ⟨1, 2⟩))

def restored : World := widened.change (.func ⟨0, 0⟩ (.retType ⟨1, 1⟩))

theorem leads_echo : Leads {} echo := (reachable_foldl .empty).leads

theorem verify_echo : echo.verify 0 = .ok (echo.certificate 0) :=
  verify_eq_ok_iff.2 ⟨violations_eq_nil_iff.1 (by cbv), rfl⟩

theorem covers_widened : widened.covers 0 (echo.certificate 0) :=
  (covers_retType echo _ _).2 (covers_certificate (by decide))

theorem covers_restored : restored.covers 0 (echo.certificate 0) :=
  (covers_retType widened _ _).2 covers_widened

theorem verify_iff_restored : Leads {} echo ∧ echo.verify 0 = .ok (echo.certificate 0) ∧
    echo.Leads restored ∧ restored.covers 0 (echo.certificate 0) ∧ (echo.module 0).fits ∧
    (restored.module 0).fits ∧ (restored.module 0).encoding = (echo.module 0).encoding ∧
    (∀ b, (restored.submit 0 (echo.certificate 0) b).1 = b.consume restored 0) ∧
    (restored.verify 0 = .ok (echo.certificate 0) ↔
      ∀ f ∈ restored.funcRefs 0, ∀ s ∈ restored.sites f, restored.InstrUntold 0 f s.instr) := by
  have hl : echo.Leads restored := (Leads.refl.change _).change _
  have hfits : (echo.module 0).fits := by decide
  have hfits' : (restored.module 0).fits := by decide
  have henc : (restored.module 0).encoding = (echo.module 0).encoding :=
    (encoding_retType widened _ _ 0).trans (encoding_retType echo _ _ 0)
  exact ⟨leads_echo, verify_echo, hl, covers_restored, hfits, hfits', henc,
    verify_iff_of_covers leads_echo verify_echo hl covers_restored hfits hfits' fun _ => henc⟩

theorem not_verify_of_covers : ¬ ∀ (w w' : World) (m : Nat) (c : Certificate), Leads {} w →
    w.verify m = .ok c → w.Leads w' → (w'.module m).encoding = (w.module m).encoding →
      w'.covers m c → ∃ c', w'.verify m = .ok c' := by
  intro h
  obtain ⟨c, hc⟩ := h echo widened 0 _ leads_echo verify_echo (Leads.refl.change _)
    (encoding_retType echo _ _ 0) covers_widened
  have hnone := violations_eq_nil_iff.2 (verify_eq_ok_iff.1 hc).1
  have hsome : (widened.violations 0).map (·.code) = [.illTyped] := by cbv
  rw [hnone] at hsome
  simp at hsome

end World

end TypedIR
