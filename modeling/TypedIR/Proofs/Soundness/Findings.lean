import TypedIR.Proofs.Soundness.Basic

namespace TypedIR

/-- The findings that go away when a body is completed. -/
def VerifyCode.unfinished : List VerifyCode :=
  [emptyBlock, missingTerminator, entryHasPredecessors, missingBody, useNotDominated,
   phiPredecessorMismatch]

@[simp] theorem Violation.code_atFunc (f : Func) (x : Finding) : (atFunc f x).code = x.code := rfl

@[simp] theorem Violation.code_atBlock (f : Func) (b : Block) (x : Finding) :
    (atBlock f b x).code = x.code := rfl

@[simp] theorem Violation.code_atInstr (f : Func) (b : Block) (n : Nat) (x : Finding) :
    (atInstr f b n x).code = x.code := rfl

namespace World

variable {w : World} {m : Nat} {f : FuncRef} {fn : Func} {v : Violation}

theorem func?_of_mem_funcRefs (h : f ∈ w.funcRefs m) : ∃ fn, w.func? f = some fn := by
  obtain ⟨rfl, hi⟩ := mem_funcRefs.1 h
  exact ⟨_, List.getElem?_eq_getElem hi⟩

theorem mem_firstFindings {ps : List Phase} (h : v ∈ w.firstFindings m ps) :
    ∃ p ∈ ps, v ∈ p.run w m := by
  induction ps with
  | nil => simp [firstFindings] at h
  | cons p ps ih =>
    cases hp : p.run w m with
    | nil =>
      simp only [firstFindings, hp] at h
      obtain ⟨q, hq, hv⟩ := ih h
      exact ⟨q, by simp [hq], hv⟩
    | cons x xs =>
      simp only [firstFindings, hp] at h
      exact ⟨p, by simp, hp ▸ h⟩

namespace FuncSound

variable (hs : w.FuncSound f)
include hs

theorem instrSound_of_mem_sites {s : Site} (h : s ∈ w.sites f) : w.InstrSound f s.instr := by
  obtain ⟨hf, hb, hi⟩ := mem_sites.1 h
  rw [block?, hf] at hb
  exact hs.instrs _ _ hb _ (List.mem_of_getElem? hi)

theorem blocksOf_ordered {b : BlockRef} {x : Block} (h : (b, x) ∈ w.blocksOf f) : x.Ordered := by
  obtain ⟨rfl, hb⟩ := mem_blocksOf.1 h
  exact hs.ordered _ _ hb

theorem instrStructure_eq_nil {b : BlockRef} {x : Block} (h : (b, x) ∈ w.blocksOf f) {n : Nat}
    {i : Instr} (hi : x.instrs[n]? = some i) : w.instrStructure f x n i = [] := by
  have ho := List.pairwise_iff_getElem.1 (hs.blocksOf_ordered h)
  obtain ⟨hn, rfl⟩ := List.getElem?_eq_some_iff.1 hi
  obtain ⟨rfl, hb⟩ := mem_blocksOf.1 h
  have hsound := hs.instrs _ _ hb _ (List.mem_of_getElem? hi)
  have hblocks := Instr.checkBlocks_iff.1 (checkInstr_eq_ok_iff.1 hsound.typing).2.1
  refine instrStructure_eq_nil_iff.2 ⟨fun hp j hj => ?_, fun ht => ?_, hblocks.1, hblocks.2⟩
  · obtain ⟨k, hk, rfl⟩ := List.mem_take_iff_getElem.1 hj
    exact (ho k n _ hn (by omega)).2 hp
  · by_contra hlast
    exact (ho n (n + 1) hn (by omega) (by omega)).1 ht

theorem code_of_mem_blockStructure {b : BlockRef} {x : Block} (h : (b, x) ∈ w.blocksOf f)
    (hv : v ∈ w.blockStructure f x) : v.code ∈ VerifyCode.unfinished := by
  rw [blockStructure] at hv
  cases hl : x.instrs.getLast? with
  | none =>
    obtain rfl : v = .atBlock (w.func f) x .emptyBlock := by simpa [hl] using hv
    simp [Finding.code, VerifyCode.unfinished]
  | some last =>
    have hn : findAt x.instrs (fun n i =>
        (w.instrStructure f x n i).map (Violation.atInstr (w.func f) x n)) = [] :=
      findAt_eq_nil_iff.2 fun n i hi => by rw [hs.instrStructure_eq_nil h hi, List.map_nil]
    simp only [hl, hn, List.nil_append] at hv
    split at hv
    · simp at hv
    · obtain rfl := List.mem_singleton.1 hv
      simp [Finding.code, VerifyCode.unfinished]

theorem code_of_mem_funcStructure {g : FlowGraph BlockRef} (hv : v ∈ w.funcStructure g f) :
    v.code ∈ VerifyCode.unfinished := by
  have hi : ¬ ((w.func f).linkage = .imported ∧ !(w.func f).isDeclaration) := by
    rintro ⟨hl, hd⟩
    simp [hs.imported hl] at hd
  simp only [funcStructure, hi, if_false, List.nil_append, List.mem_append, List.mem_flatMap,
    Prod.exists] at hv
  obtain (hv | ⟨b, x, hx, hv⟩) | hv := hv
  · split at hv
    · obtain rfl := List.mem_singleton.1 hv
      simp [Finding.code, VerifyCode.unfinished]
    · simp at hv
  · exact hs.code_of_mem_blockStructure hx hv
  · rw [entryStructure] at hv
    split at hv
    · simp at hv
    · split at hv
      · simp at hv
      · obtain rfl := List.mem_singleton.1 hv
        simp [Finding.code, VerifyCode.unfinished]

theorem redefinitions_eq_nil : redefinitions (w.func f) [] (w.sites f) = [] := by
  rw [redefinitions_eq_nil_iff, results_sites]
  exact ⟨hs.results.nodup_iff.2 List.nodup_range', by simp⟩

theorem exists_definition {u : Value} (hu : (w.func f).Names u) (hk : u.kind = .result) :
    ∃ s, definition? (w.sites f) u.id = some s := by
  obtain ⟨t, ht, _⟩ := hu.temp
  have hlt : u.id < (w.func f).temps.length := (List.getElem?_eq_some_iff.1 ht).1
  have hp : ¬ u.id < (w.func f).params.length := fun h => by simpa [hk] using hu.param.1 h
  have hmem : u.id ∈ World.results (w.sites f) := by
    rw [results_sites, hs.results.mem_iff, List.mem_range'_1]
    omega
  obtain ⟨s, hmem, hr⟩ := List.mem_filterMap.1 hmem
  exact Option.isSome_iff_exists.1 (List.find?_isSome.2 ⟨s, hmem, by simp [hr]⟩)

theorem code_of_mem_funcDominance {g : FlowGraph BlockRef}
    (hv : v ∈ w.funcDominance f.module g f) : v.code ∈ VerifyCode.unfinished := by
  simp only [funcDominance, hs.redefinitions_eq_nil, List.nil_append, List.mem_flatMap, mem_findAt,
    List.mem_map, Option.mem_toList] at hv
  obtain ⟨use, huse, k, u, hu, finding, hfind, rfl⟩ := hv
  have ho := (hs.instrSound_of_mem_sites huse).operands u (List.mem_of_getElem? hu)
  have hknown := (checkOperand_iff.1 ho).2
  simp only [useFinding?, ho] at hfind
  split at hfind
  · simp at hfind
  next hk =>
    have hk : u.kind = .result := by simpa using hk
    simp only [Value.Known, hk] at hknown
    obtain ⟨d, hd⟩ := hs.exists_definition hknown hk
    simp only [hd] at hfind
    split at hfind
    · obtain rfl := Option.some.inj hfind
      simp [Finding.code, VerifyCode.unfinished]
    · simp at hfind

theorem funcTypes : w.FuncTypes (w.contextOf f.module).types f where
  signature := hs.signature
  temps := hs.temps
  instrs _ h := (hs.instrSound_of_mem_sites h).types

end FuncSound

theorem code_of_mem_phiFindings {preds : List BlockRef} {b : Block} {i : Instr} {x : Finding}
    (h : x ∈ w.phiFindings preds b i) : x.code = .phiPredecessorMismatch := by
  rw [phiFindings, List.mem_append, List.mem_map, mem_findAt] at h
  obtain ⟨p, _, rfl⟩ | ⟨k, t, _, h⟩ := h
  · rfl
  · rw [Option.mem_toList] at h
    cases t with
    | none =>
      obtain rfl := Option.some.inj h
      rfl
    | some p =>
      simp only [incomingFinding?] at h
      split at h
      · obtain rfl := Option.some.inj h
        rfl
      · split at h
        · obtain rfl := Option.some.inj h
          rfl
        · simp at h

theorem code_of_mem_checkPhiEdges (h : v ∈ w.checkPhiEdges m) : v.code = .phiPredecessorMismatch := by
  simp only [checkPhiEdges, List.mem_flatMap, mem_findAt, List.mem_map] at h
  obtain ⟨f, _, e, _, n, i, _, x, hx, rfl⟩ := h
  exact code_of_mem_phiFindings hx

theorem Sound.code_of_mem_violations (hs : w.Sound) (hl : (w.contextOf m).isDisposed = false)
    (hv : v ∈ w.violations m) : v.code ∈ VerifyCode.unfinished := by
  have hfunc : ∀ f ∈ w.funcRefs m, f.module = m ∧ w.FuncSound f := by
    intro f hf
    obtain ⟨fn, hfn⟩ := func?_of_mem_funcRefs hf
    have hm := (mem_funcRefs.1 hf).1
    exact ⟨hm, hs.funcs f fn hfn (by rwa [hm])⟩
  rw [violations, hl, if_neg (by simp)] at hv
  obtain ⟨p, _, hv⟩ := mem_firstFindings hv
  cases p with
  | shape =>
    obtain ⟨f, hf, hv⟩ := List.mem_flatMap.1 hv
    exact (hfunc f hf).2.code_of_mem_funcStructure hv
  | dominance =>
    obtain ⟨f, hf, hv⟩ := List.mem_flatMap.1 hv
    obtain ⟨rfl, hfs⟩ := hfunc f hf
    exact hfs.code_of_mem_funcDominance hv
  | phi =>
    rw [code_of_mem_checkPhiEdges hv]
    decide
  | ownership =>
    have hn : w.checkOwnership m = [] := by
      refine checkOwnership_eq_nil_iff.2 ⟨hs.globals m hl, fun f hf => ?_⟩
      obtain ⟨rfl, hfs⟩ := hfunc f hf
      exact hfs.funcTypes
    simp [Phase.run, hn] at hv
  | typing =>
    have hn : w.checkTyping m = [] := by
      refine checkTyping_eq_nil_iff.2 fun f hf s hsite => ?_
      obtain ⟨rfl, hfs⟩ := hfunc f hf
      exact (hfs.instrSound_of_mem_sites hsite).typing
    simp [Phase.run, hn] at hv

end World

end TypedIR
