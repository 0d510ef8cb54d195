import TypedIR.Proofs.Certificate.Coverage
import TypedIR.Proofs.Operation.Modules

namespace TypedIR

namespace World

/-- Operations lead to the world, and anything may have been written into modules in between. -/
inductive Arises : World → Prop
  | empty : Arises {}
  | perform {w : World} (h : Arises w) (o : Operation) : Arises (w.perform o)
  | write {w : World} (h : Arises w) (m : Nat) (x : Module) : Arises (w.setModule m x)

/-- Operations that leave a module alone: those that are made for it change nothing. -/
def Spares (m : Nat) : World → List Operation → Prop
  | _, [] => True
  | w, o :: os => (o.module? = some m → (w.perform o).module m = w.module m) ∧ Spares m (w.perform o) os

variable {w w' : World} {m k : Nat} {c : Certificate} {os : List Operation}

theorem Reachable.arises (h : w.Reachable) : w.Arises := by
  induction h with
  | empty => exact .empty
  | perform _ o ih => exact ih.perform o

theorem Arises.closed (h : w.Arises) (hl : (w.context k).isDisposed = false) :
    (w.context k).types.Closed := by
  induction h generalizing k with
  | empty => exact absurd (valid_of_live hl) (by simp; omega)
  | @perform w _ o ih =>
    by_cases hk : k ≤ w.contexts.length
    · obtain ⟨vs, hs, -⟩ := steps_perform w o hk hl
      exact hs.closed (ih (hs.grows.isDisposed.symm.trans hl))
    · obtain ⟨limit, traces, he⟩ := context_perform_of_lt (Nat.lt_of_not_le hk) (valid_of_live hl).2
      exact he ▸ TypeRegistry.closed_empty _ _
  | write _ m x ih =>
    rw [context_setModule] at hl ⊢
    exact ih hl

theorem KeepsBlocks.of_module_eq (h : w'.module m = w.module m) (hb : w.KeepsBlocks m) :
    w'.KeepsBlocks m := by
  rintro b x rfl hx
  refine hb b x rfl ?_
  rw [← hx]
  simp only [block?, func, func?, h]

theorem spares_of_forall (h : ∀ o ∈ os, o.module? ≠ some m) : Spares m w os := by
  induction os generalizing w with
  | nil => trivial
  | cons o os ih =>
    simp only [List.forall_mem_cons] at h
    exact ⟨fun ho => absurd ho h.1, ih h.2⟩

theorem module_foldl (hm : m < w.modules.length) (hb : w.KeepsBlocks m) (hs : Spares m w os) :
    (os.foldl perform w).module m = w.module m := by
  induction os generalizing w with
  | nil => rfl
  | cons o os ih =>
    obtain ⟨ho, hs⟩ := hs
    have hstep : (w.perform o).module m = w.module m := by
      by_cases h : o.module? = some m
      · exact ho h
      · exact module_perform hm hb fun h' => absurd h' h
    have hcount := (advances_perform w o).grows.moduleCount
    exact (ih (Nat.lt_of_lt_of_le hm hcount) (hb.of_module_eq hstep) hs).trans hstep

theorem Verified.carried (hv : w.Verified m) (hc : (w.contextOf m).types.Closed) (hg : w.Grows w')
    (he : w'.module m = w.module m) (hl : (w'.contextOf m).isDisposed = false) : w.Carried w' m := by
  have hcontext : w'.contextOf m = w'.context (w.module m).context := by rw [contextOf, he]
  have hgrows : (w.contextOf m).Grows (w'.contextOf m) := by
    rw [hcontext] at hl ⊢
    exact (hg.contexts _ (valid_of_live hv.alive).2 hl).2
  have hfunc {f : FuncRef} (hf : f ∈ w.funcRefs m) : w'.func f = w.func f := by
    obtain ⟨rfl, _⟩ := mem_funcRefs.1 hf
    simp only [func, func?, he]
  have hrefs : w'.funcRefs m = w.funcRefs m := by rw [funcRefs, funcRefs, he]
  refine ⟨hv, hc, hgrows, by rw [he], hrefs, ?_, fun i fn hi => ⟨fn, by rwa [he], .refl fn⟩,
    fun f hf => by rw [code, code, blocksOf, blocksOf, hfunc hf], fun f hf s hs => ?_⟩
  · rw [he]
    exact List.forall₂_same.2 fun g _ => ⟨rfl, rfl⟩
  · rw [hrefs] at hf
    have hsites : w'.sites f = w.sites f := by rw [sites, sites, blocksOf, blocksOf, hfunc hf]
    obtain ⟨htargets, hincoming, hret, hglobals⟩ := hv.instrUntold hf (hsites ▸ hs)
    refine ⟨fun t ht => hg.isBlockOf (htargets t ht), fun t ht => hg.isBlockOf (hincoming t ht),
      fun hop => ?_, fun v hmem hk hfn => ?_⟩
    · have howns := ((hv.types f hf).instrs s (hsites ▸ hs)).operands
      exact Instr.checkRet_mono hgrows (by rw [hfunc hf]) (Instr.owns_of_checkRet howns (hret hop))
        (hret hop)
    · rw [he]
      exact hglobals v hmem hk hfn

/-- Whatever else is done while its context lives, a module that is left alone is verified again with the
same certificate. -/
theorem verify_foldl (hw : w.Arises) (hb : w.KeepsBlocks m) (hv : w.verify m = .ok c)
    (hs : Spares m w os) (hd : ∀ o ∈ os, o ≠ .dispose (w.module m).context) :
    (os.foldl perform w).verify m = .ok c ∧
      ((os.foldl perform w).module m).fingerprint = (w.module m).fingerprint ∧
      (os.foldl perform w).covers m c := by
  obtain ⟨hverified, rfl⟩ := verify_eq_ok_iff.1 hv
  have he := module_foldl (lt_of_live hverified.alive) hb hs
  have hl : ((os.foldl perform w).contextOf m).isDisposed = false := by
    rw [contextOf, he]
    exact live_foldl hverified.alive hd
  have hc := hverified.carried (hw.closed hverified.alive) (grows_foldl w os) he hl
  have hcertificate : w.certificate m = (os.foldl perform w).certificate m := by
    rw [certificate, certificate, he]
  refine ⟨verify_eq_ok_iff.2 ⟨hc.verified', hcertificate⟩, by rw [he], ?_⟩
  rw [hcertificate]
  exact covers_certificate hl

def chores : List Operation :=
  [.type 1 (.named "pair"), .type 1 (.setBody ⟨1, 6⟩ [⟨1, 1⟩, ⟨1, 2⟩] false),
    .constant 1 ⟨1, 1⟩ (.signed 7), .defineName 1 "seven" (.const ⟨1, 1⟩ 1 1), .newModule 1 "n",
    .declareFunc 1 "g" ⟨1, 3⟩ .exported, .build ⟨1, {}, {}, none⟩ (.appendBlock ⟨1, 0⟩ "entry"),
    .build ⟨1, ⟨some ⟨⟨1, 0⟩, 0⟩, none⟩, {}, none⟩ (.ret (.const ⟨1, 1⟩ 1 1))]

theorem verify_foldl_chores : echo.Arises ∧ echo.KeepsBlocks 0 ∧
    echo.verify 0 = .ok (echo.certificate 0) ∧ Spares 0 echo chores ∧
    (∀ o ∈ chores, o ≠ .dispose (echo.module 0).context) ∧
    (chores.foldl perform echo).verify 0 = .ok (echo.certificate 0) ∧
    ((chores.foldl perform echo).module 0).fingerprint = (echo.module 0).fingerprint ∧
    (chores.foldl perform echo).covers 0 (echo.certificate 0) := by
  have hr : echo.Reachable := reachable_foldl .empty
  have hb : echo.KeepsBlocks 0 := hr.tidy_and_sound.1.keepsBlocks 0
  have hs : Spares 0 echo chores := spares_of_forall (by decide)
  have hd : ∀ o ∈ chores, o ≠ .dispose (echo.module 0).context := by simp [chores]
  exact ⟨hr.arises, hb, verify_echo, hs, hd, verify_foldl hr.arises hb verify_echo hs hd⟩

end World

end TypedIR
