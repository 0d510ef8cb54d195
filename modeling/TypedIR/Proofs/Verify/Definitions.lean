import TypedIR.Proofs.Verify.Reads

/-! Definitions in verified modules. Verification compares operands with the temporaries that they
name, and sees to it that no temporary is defined twice. It does not compare a temporary with the
instruction that defines it, and never looks at results that nothing reads. -/

namespace TypedIR

/-- A temporary of the function that is no parameter, of the given type. -/
structure Func.Allocates (f : Func) (id : Nat) (t : TypeRef) : Prop where
  param : f.params.length ≤ id
  type : f.temps[id]?.map (·.type) = some t

theorem Func.Names.allocates {f : Func} {v : Value} (h : f.Names v) (hk : v.kind = .result) :
    f.Allocates v.id v.type where
  param := Nat.le_of_not_lt fun hlt => by simpa [hk] using h.param.1 hlt
  type := by
    obtain ⟨t, ht, hty⟩ := h.temp
    rw [ht, Option.map_some, hty]

theorem Func.Allocates.tempValue? {f : Func} {id : Nat} {t : TypeRef} (h : f.Allocates id t) :
    f.tempValue? id ≠ none := by
  obtain ⟨x, hx, _⟩ := Option.map_eq_some_iff.1 h.type
  simp [Func.tempValue?, hx]

namespace World

variable {w : World} {m : Nat} {f : FuncRef} {v : Value} {certificate : Certificate}

def Takes (w : World) (f : FuncRef) (v : Value) : Prop :=
  v.kind = .result ∧ ∃ use ∈ w.sites f, v ∈ use.instr.operands

/-- Results are temporaries of the function, with the types of their instructions. Operands record
those types, and every result can be written out. -/
structure DefinesConsistently (w : World) (f : FuncRef) : Prop where
  allocated : ∀ s ∈ w.sites f, ∀ id, s.instr.result = some id →
    (w.func f).Allocates id s.instr.type
  unique : ∀ s ∈ w.sites f, ∀ t ∈ w.sites f, ∀ id, s.instr.result = some id →
    t.instr.result = some id → s = t
  recorded : ∀ v, w.Takes f v → ∀ s ∈ w.sites f, s.instr.result = some v.id →
    v.type = s.instr.type
  written : ∀ s ∈ w.sites f, ∀ id, s.instr.result = some id → (w.func f).tempValue? id ≠ none

/-- What verification leaves open: whether a temporary that is read has the type of the instruction
that gives it, and all about the temporaries that are not read. -/
structure KeepsRecords (w : World) (f : FuncRef) : Prop where
  taken : ∀ v, w.Takes f v → ∀ s ∈ w.sites f, s.instr.result = some v.id →
    ∀ x ∈ (w.func f).temps[v.id]?, x.type = s.instr.type
  untaken : ∀ s ∈ w.sites f, ∀ id, s.instr.result = some id → (∀ v, w.Takes f v → v.id ≠ id) →
    (w.func f).Allocates id s.instr.type

namespace Verified

variable (h : w.Verified m)
include h

theorem of_takes (hf : f ∈ w.funcRefs m) (hv : w.Takes f v) :
    (w.func f).Allocates v.id v.type ∧ ∃ s ∈ w.sites f, s.instr.result = some v.id := by
  obtain ⟨hk, use, hu, hmem⟩ := hv
  obtain ⟨k, hk'⟩ := List.mem_iff_getElem?.1 hmem
  obtain ⟨_, s, hs, hr, _⟩ := h.exists_definition hf hu hk' hk
  have hnames : (w.func f).Names v := (Value.known_iff_names (.inl hk)).1 (h.known hf hu hmem)
  exact ⟨hnames.allocates hk, s, hs, hr⟩

theorem allocates_result (hf : f ∈ w.funcRefs m) (hr : w.KeepsRecords f) {s : Site}
    (hs : s ∈ w.sites f) {id : Nat} (hid : s.instr.result = some id) :
    (w.func f).Allocates id s.instr.type := by
  by_cases ht : ∃ v, w.Takes f v ∧ v.id = id
  · obtain ⟨v, hv, rfl⟩ := ht
    have hv' := (h.of_takes hf hv).1
    obtain ⟨x, hx, -⟩ := Option.map_eq_some_iff.1 hv'.type
    exact ⟨hv'.param, by rw [hx, Option.map_some, hr.taken v hv s hs hid x hx]⟩
  · exact hr.untaken s hs id hid fun v hv he => ht ⟨v, hv, he⟩

end Verified

/-- In a verified module no temporary is defined twice, and every operand is of the type of its
temporary, which is no parameter and which some instruction defines. Definitions are consistent
throughout just when the records that verification does not look at are kept. -/
theorem definesConsistently_iff_of_verify (h : w.verify m = .ok certificate)
    (hf : f ∈ w.funcRefs m) :
    (∀ s ∈ w.sites f, ∀ t ∈ w.sites f, ∀ id, s.instr.result = some id →
      t.instr.result = some id → s = t) ∧
    (∀ v, w.Takes f v → (w.func f).Allocates v.id v.type ∧
      ∃ s ∈ w.sites f, s.instr.result = some v.id) ∧
    (w.DefinesConsistently f ↔ w.KeepsRecords f) := by
  have hv := (verify_eq_ok_iff.1 h).1
  have hunique : ∀ s ∈ w.sites f, ∀ t ∈ w.sites f, ∀ id, s.instr.result = some id →
      t.instr.result = some id → s = t := fun s hs t ht id => hv.eq_of_result_eq hf hs ht
  refine ⟨hunique, fun v => hv.of_takes hf, fun hc => ?_, fun hr => ?_⟩
  · refine ⟨fun v _ s hs hid x hx => ?_, fun s hs id hid _ => hc.allocated s hs id hid⟩
    have htype := (hc.allocated s hs _ hid).type
    rw [Option.mem_def.1 hx, Option.map_some] at htype
    exact Option.some.inj htype
  · have hall : ∀ s ∈ w.sites f, ∀ id, s.instr.result = some id →
        (w.func f).Allocates id s.instr.type := fun s hs id => hv.allocates_result hf hr hs
    refine ⟨hall, hunique, fun v ht s hs hid => ?_, fun s hs id hid => (hall s hs id hid).tempValue?⟩
    -- The operand and the instruction both have the type that is recorded for the temporary.
    have htype := (hv.of_takes hf ht).1.type
    rw [(hall s hs _ hid).type] at htype
    exact (Option.some.inj htype).symm

theorem definesConsistently_loadsSlot : loadsSlot.verify 0 = .ok (loadsSlot.certificate 0) ∧
    loadsSlot.DefinesConsistently ⟨0, 0⟩ := by
  have hall : ∀ s ∈ loadsSlot.sites ⟨0, 0⟩, ∀ id ∈ s.instr.result,
      (loadsSlot.func ⟨0, 0⟩).params.length ≤ id ∧
        (loadsSlot.func ⟨0, 0⟩).temps[id]?.map (·.type) = some s.instr.type := by decide
  refine ⟨verify_loadsSlot, (definesConsistently_iff_of_verify verify_loadsSlot (by decide)).2.2.2 ?_⟩
  constructor
  · intro v _ s hs hid x hx
    have htype := (hall s hs v.id hid).2
    rw [Option.mem_def.1 hx, Option.map_some] at htype
    exact Option.some.inj htype
  · intro s hs id hid _
    exact ⟨(hall s hs id hid).1, (hall s hs id hid).2⟩

def loadsAddress : World := oneBlock [⟨⟨1, 3⟩, "slot"⟩, ⟨⟨1, 1⟩, "x"⟩]
  [{ op := .alloca, type := ⟨1, 3⟩, result := some 0, typeOperand := ⟨1, 1⟩ },
    { op := .load, type := ⟨1, 3⟩, result := some 1, operands := [.result ⟨1, 3⟩ 0 1] },
    { op := .load, type := ⟨1, 1⟩, result := some 9, operands := [.result ⟨1, 3⟩ 0 1] },
    { op := .ret, type := ⟨1, 4⟩, operands := [.result ⟨1, 1⟩ 1 1] }]

theorem verify_loadsAddress : loadsAddress.verify 0 = .ok (loadsAddress.certificate 0) :=
  verify_eq_ok_iff.2 ⟨violations_eq_nil_iff.1 (by cbv), rfl⟩

theorem not_definesConsistently_of_verify :
    (¬ ∀ (w : World) (m : Nat) (c : Certificate) (f : FuncRef), w.verify m = .ok c →
      f ∈ w.funcRefs m → w.DefinesConsistently f) ∧
    ¬ ∀ (w : World) (m : Nat) (c : Certificate) (f : FuncRef), w.verify m = .ok c →
      f ∈ w.funcRefs m → ∀ v, w.Takes f v → ∀ s ∈ w.sites f, s.instr.result = some v.id →
        v.type = s.instr.type := by
  constructor
  · intro h
    have hc := h loadsAddress 0 _ ⟨0, 0⟩ verify_loadsAddress (by decide)
    obtain ⟨s, hs, hid⟩ : ∃ s ∈ loadsAddress.sites ⟨0, 0⟩, s.instr.result = some 9 := by decide
    exact hc.written s hs 9 hid rfl
  · intro h
    have hv : loadsAddress.Takes ⟨0, 0⟩ (.result ⟨1, 1⟩ 1 1) := ⟨rfl, by decide⟩
    obtain ⟨s, hs, hid, ht⟩ : ∃ s ∈ loadsAddress.sites ⟨0, 0⟩,
        s.instr.result = some 1 ∧ s.instr.type = ⟨1, 3⟩ := by decide
    have he := h loadsAddress 0 _ ⟨0, 0⟩ verify_loadsAddress (by decide) _ hv s hs hid
    exact absurd (he.trans ht) (by decide)

end World

end TypedIR
