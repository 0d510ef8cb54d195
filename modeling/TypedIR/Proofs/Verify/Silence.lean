import TypedIR.Proofs.Flow.Blocks
import TypedIR.Proofs.Typing.Operands
import TypedIR.Verify.Certificate

namespace TypedIR

theorem findAt_eq_nil_iff {α β : Type} {xs : List α} {find : Nat → α → List β} :
    findAt xs find = [] ↔ ∀ n x, xs[n]? = some x → find n x = [] := by
  simp only [findAt, List.flatMap_eq_nil_iff, List.mem_zipIdx_iff_getElem?, Prod.forall]
  exact forall_comm

theorem mem_findAt {α β : Type} {xs : List α} {find : Nat → α → List β} {y : β} :
    y ∈ findAt xs find ↔ ∃ n x, xs[n]? = some x ∧ y ∈ find n x := by
  simp only [findAt, List.mem_flatMap, List.mem_zipIdx_iff_getElem?, Prod.exists]
  exact exists_comm

namespace World

variable {w : World} {m : Nat} {f : FuncRef}

structure InstrShape (w : World) (f : FuncRef) (b : Block) (n : Nat) (i : Instr) : Prop where
  phi : i.op = .phi → ∀ j ∈ b.instrs.take n, j.op = .phi
  terminator : i.op.isTerminator → n + 1 = b.instrs.length
  targets : ∀ t ∈ i.targets, w.isBlockOf f t
  incoming : ∀ t ∈ i.incoming, w.isBlockOf f t

theorem instrStructure_eq_nil_iff {b : Block} {n : Nat} {i : Instr} :
    w.instrStructure f b n i = [] ↔ w.InstrShape f b n i := by
  simp only [instrStructure, List.append_eq_nil_iff, ite_eq_right_iff, List.cons_ne_nil,
    imp_false, not_and, List.map_eq_nil_iff, List.filter_eq_nil_iff, List.any_eq_true]
  constructor
  · rintro ⟨⟨⟨h1, h2⟩, h3⟩, h4⟩
    exact ⟨by simpa using h1, by simpa using h2, by simpa using h3, by simpa using h4⟩
  · rintro ⟨h1, h2, h3, h4⟩
    exact ⟨⟨⟨by simpa using h1, by simpa using h2⟩, by simpa using h3⟩, by simpa using h4⟩

structure BlockShape (w : World) (f : FuncRef) (b : Block) : Prop where
  terminated : ∃ i, b.terminator? = some i
  instrs : ∀ n i, b.instrs[n]? = some i → w.InstrShape f b n i

theorem blockStructure_eq_nil_iff {b : Block} :
    w.blockStructure f b = [] ↔ w.BlockShape f b := by
  constructor
  · intro h
    rw [blockStructure] at h
    cases hl : b.instrs.getLast? with
    | none => simp [hl] at h
    | some last =>
      simp only [hl, List.append_eq_nil_iff, findAt_eq_nil_iff, List.map_eq_nil_iff,
        instrStructure_eq_nil_iff] at h
      refine ⟨⟨last, ?_⟩, h.1⟩
      by_cases ht : last.op.isTerminator
      · simp [Block.terminator?, hl, Option.filter, ht]
      · simp [ht] at h
  · rintro ⟨⟨i, hi⟩, h⟩
    obtain ⟨hl, ht⟩ := Option.filter_eq_some_iff.1 hi
    simp only [blockStructure, hl, List.append_eq_nil_iff, findAt_eq_nil_iff, List.map_eq_nil_iff,
      instrStructure_eq_nil_iff, ht, if_true, and_true]
    exact h

structure FuncShape (w : World) (g : FlowGraph BlockRef) (f : FuncRef) : Prop where
  imported : (w.func f).linkage = .imported → (w.func f).isDeclaration
  internal : (w.func f).linkage = .internal → (w.func f).isDeclaration = false
  blocks : ∀ b x, (b, x) ∈ w.blocksOf f → w.BlockShape f x
  entry : ∀ b, w.entryRef? f = some b → g.preds b = []

theorem entryStructure_eq_nil_iff {g : FlowGraph BlockRef} :
    w.entryStructure g f = [] ↔ ∀ b, w.entryRef? f = some b → g.preds b = [] := by
  simp only [entryStructure, entryRef?]
  cases w.blocksOf f with
  | nil => simp
  | cons e es => cases hp : g.preds e.1 <;> simp [hp]

theorem funcStructure_eq_nil_iff {g : FlowGraph BlockRef} :
    w.funcStructure g f = [] ↔ w.FuncShape g f := by
  simp only [funcStructure, entryStructure_eq_nil_iff, List.append_eq_nil_iff, List.flatMap_eq_nil_iff,
    blockStructure_eq_nil_iff, ite_eq_right_iff, List.cons_ne_nil, imp_false, not_and, Prod.forall]
  constructor
  · rintro ⟨⟨⟨h1, h2⟩, h3⟩, h4⟩
    exact ⟨by simpa using h1, by simpa using h2, h3, h4⟩
  · rintro ⟨h1, h2, h3, h4⟩
    exact ⟨⟨⟨by simpa using h1, by simpa using h2⟩, h3⟩, h4⟩

theorem checkStructure_eq_nil_iff :
    w.checkStructure m = [] ↔ ∀ f ∈ w.funcRefs m, w.FuncShape (w.flowGraph m) f := by
  simp [checkStructure, funcStructure_eq_nil_iff]

theorem mem_sites {s : Site} : s ∈ w.sites f ↔ s.ref.func = f ∧ w.block? s.ref = some s.block ∧
    s.block.instrs[s.index]? = some s.instr := by
  obtain ⟨ref, block, index, instr⟩ := s
  simp only [sites, List.mem_flatMap, Prod.exists, mem_findAt, List.mem_singleton, mem_blocksOf,
    Site.mk.injEq]
  constructor
  · rintro ⟨_, _, ⟨hf, hb⟩, _, _, hi, rfl, rfl, rfl, rfl⟩
    exact ⟨hf, hb, hi⟩
  · rintro ⟨hf, hb, hi⟩
    exact ⟨_, _, ⟨hf, hb⟩, _, _, hi, rfl, rfl, rfl, rfl⟩

def results (sites : List Site) : List Nat := sites.filterMap (·.instr.result)

theorem redefinitions_eq_nil_iff {fn : Func} {seen : List Nat} {ss : List Site} :
    redefinitions fn seen ss = [] ↔ (results ss).Nodup ∧ ∀ id ∈ results ss, id ∉ seen := by
  induction ss generalizing seen with
  | nil => simp [redefinitions, results]
  | cons s ss ih =>
    cases hr : s.instr.result with
    | none => simpa [redefinitions, results, hr] using ih
    | some id =>
      by_cases hs : id ∈ seen
      · simp [redefinitions, results, hr, hs]
      · simp only [redefinitions, hr, hs, if_false, ih]
        simp only [results, List.filterMap_cons, hr, List.nodup_cons, List.mem_cons]
        grind

theorem definition?_eq_some_iff {ss : List Site} {id : Nat} {s : Site} (h : (results ss).Nodup) :
    definition? ss id = some s ↔ s ∈ ss ∧ s.instr.result = some id := by
  induction ss with
  | nil => simp [definition?]
  | cons t ss ih =>
    simp only [definition?, List.find?_cons] at ih ⊢
    by_cases ht : t.instr.result = some id
    · simp only [results, List.filterMap_cons, ht, List.nodup_cons] at h
      simp only [ht, decide_true, Option.some.injEq, List.mem_cons]
      constructor
      · rintro rfl
        exact ⟨.inl rfl, ht⟩
      · rintro ⟨rfl | hs, hr⟩
        · rfl
        · exact absurd (List.mem_filterMap.2 ⟨s, hs, hr⟩) h.1
    · have hn : (results ss).Nodup := by
        cases hr : t.instr.result <;> simp_all [results]
      simp only [ht, decide_false, ih hn, List.mem_cons]
      grind

structure UseChecks (w : World) (m : Nat) (f : FuncRef) (d : DomTree BlockRef) (use : Site) (k : Nat)
    (v : Value) : Prop where
  operand : checkOperand (w.contextOf m) (w.module m) (w.func f) v = .ok ()
  defined : v.kind = .result → ∃ s, definition? (w.sites f) v.id = some s ∧
    (d.contains use.ref → isDominated d s use k)

theorem useFinding?_eq_none_iff {d : DomTree BlockRef} {use : Site} {k : Nat} {v : Value} :
    w.useFinding? m f d (w.sites f) use k v = none ↔ w.UseChecks m f d use k v := by
  constructor
  · intro h
    rw [useFinding?] at h
    cases ho : checkOperand (w.contextOf m) (w.module m) (w.func f) v with
    | error e => simp [ho] at h
    | ok u =>
      refine ⟨ho, fun hk => ?_⟩
      cases hd : definition? (w.sites f) v.id with
      | none => simp [ho, hk, hd] at h
      | some s =>
        refine ⟨s, rfl, fun hc => ?_⟩
        simpa [ho, hk, hd, hc] using h
  · rintro ⟨ho, hd⟩
    rw [useFinding?, ho]
    by_cases hk : v.kind = .result
    · obtain ⟨s, hs, hdom⟩ := hd hk
      simpa [hk, hs] using hdom
    · simp [hk]

structure FuncDominance (w : World) (m : Nat) (f : FuncRef) : Prop where
  nodup : (results (w.sites f)).Nodup
  uses : ∀ use ∈ w.sites f, ∀ k v, use.instr.operands[k]? = some v →
    w.UseChecks m f (w.domTree (w.flowGraph m) f) use k v

theorem checkDominance_eq_nil_iff :
    w.checkDominance m = [] ↔ ∀ f ∈ w.funcRefs m, w.FuncDominance m f := by
  simp only [checkDominance, List.flatMap_eq_nil_iff, funcDominance, List.append_eq_nil_iff,
    redefinitions_eq_nil_iff, findAt_eq_nil_iff, List.map_eq_nil_iff, Option.toList_eq_nil_iff,
    useFinding?_eq_none_iff, List.not_mem_nil, not_false_eq_true, implies_true, and_true]
  exact forall₂_congr fun _ _ => ⟨fun h => ⟨h.1, h.2⟩, fun h => ⟨h.1, h.2⟩⟩

structure PhiEdges (preds : List BlockRef) (i : Instr) : Prop where
  covered : ∀ p ∈ preds, some p ∈ i.incoming
  preds : ∀ t ∈ i.incoming, ∃ p ∈ preds, t = some p
  agree : ∀ j k t, j < k → i.incoming[j]? = some t → i.incoming[k]? = some t →
    k < i.operands.length → i.operands[j]? = i.operands[k]?

theorem incomingFinding?_eq_none_iff {preds : List BlockRef} {b : Block} {i : Instr} {k : Nat}
    {t : Option BlockRef} : w.incomingFinding? preds b i k t = none ↔
      (∃ p ∈ preds, t = some p) ∧ (k < i.operands.length →
        ∀ j < k, i.incoming[j]? = some t → i.operands[j]? = i.operands[k]?) := by
  cases t with
  | none => simp [incomingFinding?]
  | some p =>
    by_cases hp : p ∈ preds
    · simp [incomingFinding?, hp]
    · simp [incomingFinding?, hp]

theorem phiFindings_eq_nil_iff {preds : List BlockRef} {b : Block} {i : Instr} :
    w.phiFindings preds b i = [] ↔ PhiEdges preds i := by
  simp only [phiFindings, List.append_eq_nil_iff, List.map_eq_nil_iff, List.filter_eq_nil_iff,
    decide_eq_true_eq, Classical.not_not, findAt_eq_nil_iff, Option.toList_eq_nil_iff,
    incomingFinding?_eq_none_iff]
  constructor
  · rintro ⟨hc, h⟩
    refine ⟨hc, fun t ht => ?_, fun j k t hjk hj hk hlt => (h k t hk).2 hlt j hjk hj⟩
    obtain ⟨k, hk⟩ := List.mem_iff_getElem?.1 ht
    exact (h k t hk).1
  · rintro ⟨hc, hp, ha⟩
    exact ⟨hc, fun k t hk => ⟨hp t (List.mem_of_getElem? hk),
      fun hlt j hjk hj => ha j k t hjk hj hk hlt⟩⟩

theorem checkPhiEdges_eq_nil_iff : w.checkPhiEdges m = [] ↔ ∀ f ∈ w.funcRefs m,
    ∀ b x, (b, x) ∈ w.blocksOf f → ∀ i ∈ x.phis, PhiEdges ((w.flowGraph m).preds b) i := by
  simp only [checkPhiEdges, List.flatMap_eq_nil_iff, findAt_eq_nil_iff, List.map_eq_nil_iff,
    phiFindings_eq_nil_iff, Prod.forall]
  refine forall₄_congr fun f _ b x => forall_congr' fun _ => ?_
  constructor
  · intro h i hi
    obtain ⟨n, hn⟩ := List.mem_iff_getElem?.1 hi
    exact h n i hn
  · exact fun h n i hn => h i (List.mem_of_getElem? hn)

theorem typeFault?_eq_none_iff {types : TypeRegistry} {t : TypeRef} :
    typeFault? types t = none ↔ types.owns t := by
  by_cases h : types.owns t
  · simp [typeFault?, h]
  · simp only [typeFault?, h]
    grind

structure InstrTypes (types : TypeRegistry) (i : Instr) : Prop where
  result : types.owns i.type
  operand : i.op.needsTypeOperand ∨ i.typeOperand.isValid → types.owns i.typeOperand
  operands : ∀ v ∈ i.operands, types.owns v.type

theorem instrTypes_eq_nil_iff {types : TypeRegistry} {i : Instr} :
    instrTypes types i = [] ↔ InstrTypes types i := by
  simp only [instrTypes, List.append_eq_nil_iff, List.map_eq_nil_iff, Option.toList_eq_nil_iff,
    typeFault?_eq_none_iff, ite_eq_right_iff, List.flatMap_eq_nil_iff]
  exact ⟨fun h => ⟨h.1.1, h.1.2, h.2⟩, fun h => ⟨⟨h.1, h.2⟩, h.3⟩⟩

structure FuncTypes (w : World) (types : TypeRegistry) (f : FuncRef) : Prop where
  signature : types.owns (w.func f).type
  temps : ∀ t ∈ (w.func f).temps, types.owns t.type
  instrs : ∀ s ∈ w.sites f, InstrTypes types s.instr

theorem funcTypes_eq_nil_iff {types : TypeRegistry} :
    w.funcTypes types f = [] ↔ w.FuncTypes types f := by
  simp only [funcTypes, List.append_eq_nil_iff, List.map_eq_nil_iff, Option.toList_eq_nil_iff,
    typeFault?_eq_none_iff, findAt_eq_nil_iff, List.flatMap_eq_nil_iff, instrTypes_eq_nil_iff]
  constructor
  · rintro ⟨⟨hs, ht⟩, hi⟩
    refine ⟨hs, fun t h => ?_, hi⟩
    obtain ⟨n, hn⟩ := List.mem_iff_getElem?.1 h
    exact ht n t hn
  · rintro ⟨hs, ht, hi⟩
    exact ⟨⟨hs, fun n t hn => ht t (List.mem_of_getElem? hn)⟩, hi⟩

structure GlobalTypes (types : TypeRegistry) (g : Global) : Prop where
  type : types.owns g.type
  init : ∀ v, g.init = some v → types.owns v.type

theorem globalTypes_eq_nil_iff {types : TypeRegistry} {g : Global} :
    globalTypes types g = [] ↔ GlobalTypes types g := by
  have hi : g.init.bind (typeFault? types ·.type) = none ↔
      ∀ v, g.init = some v → types.owns v.type := by
    cases g.init <;> simp [typeFault?_eq_none_iff]
  simp only [globalTypes, List.map_eq_nil_iff, List.append_eq_nil_iff, Option.toList_eq_nil_iff,
    typeFault?_eq_none_iff, hi]
  exact ⟨fun h => ⟨h.1, h.2⟩, fun h => ⟨h.1, h.2⟩⟩

theorem checkOwnership_eq_nil_iff : w.checkOwnership m = [] ↔
    (∀ g ∈ (w.module m).globals, GlobalTypes (w.contextOf m).types g) ∧
      ∀ f ∈ w.funcRefs m, w.FuncTypes (w.contextOf m).types f := by
  simp only [checkOwnership, List.append_eq_nil_iff, List.flatMap_eq_nil_iff,
    globalTypes_eq_nil_iff, funcTypes_eq_nil_iff]

theorem checkInstr_eq_ok_iff {i : Instr} : w.checkInstr m f i = .ok () ↔
    i.checkShape = .ok () ∧ i.checkBlocks (w.func f).name (w.isBlockOf f) = .ok () ∧
      i.checkRule (w.contextOf m) (w.module m) (w.func f) = .ok () := by
  rw [checkInstr]
  cases i.checkShape with
  | error e => simp [Except.mapError, bind, Except.bind]
  | ok u =>
    cases i.checkBlocks (w.func f).name (w.isBlockOf f) with
    | error e => simp [Except.mapError, bind, Except.bind]
    | ok u =>
      cases i.checkRule (w.contextOf m) (w.module m) (w.func f) <;>
        simp [Except.mapError, bind, Except.bind]

theorem checkTyping_eq_nil_iff : w.checkTyping m = [] ↔
    ∀ f ∈ w.funcRefs m, ∀ s ∈ w.sites f, w.checkInstr m f s.instr = .ok () := by
  simp only [checkTyping, List.flatMap_eq_nil_iff]
  refine forall₄_congr fun f _ s _ => ?_
  cases w.checkInstr m f s.instr <;> simp

/-- A module that every phase is silent about. -/
structure Verified (w : World) (m : Nat) : Prop where
  alive : (w.contextOf m).isDisposed = false
  shape : ∀ f ∈ w.funcRefs m, w.FuncShape (w.flowGraph m) f
  dominance : ∀ f ∈ w.funcRefs m, w.FuncDominance m f
  phis : ∀ f ∈ w.funcRefs m, ∀ b x, (b, x) ∈ w.blocksOf f → ∀ i ∈ x.phis,
    PhiEdges ((w.flowGraph m).preds b) i
  globals : ∀ g ∈ (w.module m).globals, GlobalTypes (w.contextOf m).types g
  types : ∀ f ∈ w.funcRefs m, w.FuncTypes (w.contextOf m).types f
  typing : ∀ f ∈ w.funcRefs m, ∀ s ∈ w.sites f, w.checkInstr m f s.instr = .ok ()

theorem firstFindings_eq_nil_iff {ps : List Phase} :
    w.firstFindings m ps = [] ↔ ∀ p ∈ ps, p.run w m = [] := by
  induction ps with
  | nil => simp [firstFindings]
  | cons p ps ih => cases h : p.run w m <;> simp [firstFindings, h, ih]

theorem violations_eq_nil_iff_run : w.violations m = [] ↔
    (w.contextOf m).isDisposed = false ∧ ∀ p : Phase, p.run w m = [] := by
  rw [violations]
  cases (w.contextOf m).isDisposed with
  | true => simp
  | false =>
    simp only [Bool.false_eq_true, if_false, firstFindings_eq_nil_iff, true_and]
    exact ⟨fun h p => h p (by cases p <;> simp [Phase.all]), fun h p _ => h p⟩

theorem violations_eq_nil_iff : w.violations m = [] ↔ w.Verified m := by
  rw [violations_eq_nil_iff_run]
  constructor
  · rintro ⟨hl, h⟩
    obtain ⟨hglobals, htypes⟩ := checkOwnership_eq_nil_iff.1 (h .ownership)
    exact ⟨hl, checkStructure_eq_nil_iff.1 (h .shape), checkDominance_eq_nil_iff.1 (h .dominance),
      checkPhiEdges_eq_nil_iff.1 (h .phi), hglobals, htypes, checkTyping_eq_nil_iff.1 (h .typing)⟩
  · intro h
    refine ⟨h.alive, fun p => ?_⟩
    cases p with
    | shape => exact checkStructure_eq_nil_iff.2 h.shape
    | dominance => exact checkDominance_eq_nil_iff.2 h.dominance
    | phi => exact checkPhiEdges_eq_nil_iff.2 h.phis
    | ownership => exact checkOwnership_eq_nil_iff.2 ⟨h.globals, h.types⟩
    | typing => exact checkTyping_eq_nil_iff.2 h.typing

theorem verify_eq_ok_iff {c : Certificate} :
    w.verify m = .ok c ↔ w.Verified m ∧ c = w.certificate m := by
  rw [← violations_eq_nil_iff, verify]
  cases w.violations m <;> simp [eq_comm]

theorem Verified.known (h : w.Verified m) (hf : f ∈ w.funcRefs m) {s : Site} (hs : s ∈ w.sites f)
    {v : Value} (hv : v ∈ s.instr.operands) :
    v.Known (w.contextOf m) (w.module m) (w.func f) := by
  obtain ⟨k, hk⟩ := List.mem_iff_getElem?.1 hv
  exact (checkOperand_iff.1 ((h.dominance f hf).uses s hs k v hk).operand).2

end World

end TypedIR
