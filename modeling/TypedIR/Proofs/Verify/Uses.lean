import Mathlib
import TypedIR.Proofs.Verify.Walk

namespace TypedIR.World

structure UseReport where
  use : Site
  operand : Nat
  finding : Finding

def UseReport.violation (f : Func) (x : UseReport) : Violation :=
  .atInstr f x.use.block x.use.index x.finding

/-- What the dominance phase finds in a function, operand by operand. -/
def useReports (w : World) (m : Nat) (f : FuncRef) : List UseReport :=
  (w.sites f).flatMap fun use => findAt use.instr.operands fun k v =>
    (w.useFinding? m f (w.domTree (w.flowGraph m) f) (w.sites f) use k v).toList.map (⟨use, k, ·⟩)

/-- An operand is reported as not dominated by its definition. -/
def ReportsUse (w : World) (m : Nat) (f : FuncRef) (use : Site) (k : Nat) : Prop :=
  ∃ x ∈ w.useReports m f, x.use = use ∧ x.operand = k ∧ x.finding.code = .useNotDominated

def blockSites (w : World) (b : BlockRef) : List Site :=
  match w.block? b with
  | none => []
  | some x => x.instrs.zipIdx.map fun i => ⟨b, x, i.2, i.1⟩

/-- What a walk has executed when it comes to a use: all of the blocks before, and of the block of
the use what stands before it. A phi uses its operand at the end of the incoming block. -/
inductive ComesTo (w : World) (m : Nat) (f : FuncRef) (use : Site) (k : Nat) : List Site → Prop
  | body {p} : use.instr.op ≠ .phi → w.FlowPath m f use.ref (p ++ [use.ref]) →
    ComesTo w m f use k (p.flatMap w.blockSites ++ (w.blockSites use.ref).take use.index)
  | phi {a p} : use.instr.op = .phi → use.instr.incoming[k]? = some (some a) →
    w.FlowPath m f a p → ComesTo w m f use k (p.flatMap w.blockSites)

variable {w : World} {m : Nat} {f : FuncRef} {a b : BlockRef} {s use : Site} {k n : Nat} {v : Value}
  {p : List BlockRef}

theorem getElem?_blockSites {x : Block} (hx : w.block? b = some x) :
    (w.blockSites b)[n]? = x.instrs[n]?.map fun i => ⟨b, x, n, i⟩ := by
  simp only [blockSites, hx, List.getElem?_map, List.getElem?_zipIdx, Option.map_map,
    Function.comp_def, Nat.zero_add]

theorem ref_of_mem_blockSites (h : s ∈ w.blockSites b) : s.ref = b := by
  rw [blockSites] at h
  split at h
  · simp at h
  · obtain ⟨_, _, rfl⟩ := List.mem_map.1 h
    rfl

theorem mem_blockSites (hs : s ∈ w.sites f) : s ∈ w.blockSites b ↔ s.ref = b := by
  refine ⟨ref_of_mem_blockSites, ?_⟩
  rintro rfl
  obtain ⟨_, hx, hi⟩ := mem_sites.1 hs
  have h := getElem?_blockSites (n := s.index) hx
  rw [hi] at h
  exact List.mem_of_getElem? h

theorem mem_take_blockSites (hs : s ∈ w.sites f) :
    s ∈ (w.blockSites b).take n ↔ s.ref = b ∧ s.index < n := by
  obtain ⟨_, hx, hi⟩ := mem_sites.1 hs
  constructor
  · intro h
    obtain rfl := ref_of_mem_blockSites (List.mem_of_mem_take h)
    obtain ⟨j, hj⟩ := List.mem_iff_getElem?.1 h
    rw [List.getElem?_take] at hj
    split at hj
    next hlt =>
      rw [getElem?_blockSites hx] at hj
      obtain ⟨i, _, he⟩ := Option.map_eq_some_iff.1 hj
      exact ⟨rfl, by rw [← he]; exact hlt⟩
    next => exact absurd hj (by simp)
  · rintro ⟨rfl, hlt⟩
    have h := getElem?_blockSites (n := s.index) hx
    rw [hi] at h
    exact List.mem_of_getElem? ((List.getElem?_take_of_lt hlt).trans h)

theorem mem_executed (hs : s ∈ w.sites f) : s ∈ p.flatMap w.blockSites ↔ s.ref ∈ p := by
  simp only [List.mem_flatMap, mem_blockSites hs]
  constructor
  · rintro ⟨b, hb, rfl⟩
    exact hb
  · exact fun h => ⟨_, h, rfl⟩

theorem FlowPath.exists_first (h : w.FlowPath m f b p) :
    ∃ q, w.FlowPath m f b (q ++ [b]) ∧ b ∉ q := by
  obtain ⟨e, he, hp⟩ := h
  obtain ⟨q, hq, hb⟩ := hp.exists_first
  exact ⟨q, ⟨e, he, hq⟩, hb⟩

theorem not_dominates_domTree_iff (hb : ∃ p, w.FlowPath m f b p) :
    ¬ (w.domTree (w.flowGraph m) f).dominates a b ↔ ∃ p, w.FlowPath m f b p ∧ a ∉ p := by
  rw [dominates_domTree_iff, not_and]
  simp only [hb, true_imp_iff, not_forall, exists_prop]

theorem mem_useReports {x : UseReport} : x ∈ w.useReports m f ↔ x.use ∈ w.sites f ∧
    ∃ v, x.use.instr.operands[x.operand]? = some v ∧
      w.useFinding? m f (w.domTree (w.flowGraph m) f) (w.sites f) x.use x.operand v =
        some x.finding := by
  obtain ⟨use, k, finding⟩ := x
  simp only [useReports, List.mem_flatMap, mem_findAt, List.mem_map, Option.mem_toList,
    UseReport.mk.injEq]
  constructor
  · rintro ⟨use, hu, k, v, hv, finding, hf, rfl, rfl, rfl⟩
    exact ⟨hu, v, hv, hf⟩
  · rintro ⟨hu, v, hv, hf⟩
    exact ⟨use, hu, k, v, hv, finding, hf, rfl, rfl, rfl⟩

theorem checkDominance_eq (w : World) (m : Nat) : w.checkDominance m =
    (w.funcRefs m).flatMap fun f => redefinitions (w.func f) [] (w.sites f) ++
      (w.useReports m f).map (·.violation (w.func f)) := by
  simp only [checkDominance, useReports, findAt, List.map_flatMap, List.map_map]
  rfl

theorem reportsUse_iff_not_isDominated (hn : (results (w.sites f)).Nodup) (hu : use ∈ w.sites f)
    (hv : use.instr.operands[k]? = some v)
    (ho : checkOperand (w.contextOf m) (w.module m) (w.func f) v = .ok ()) (hk : v.kind = .result)
    (hs : s ∈ w.sites f) (hr : s.instr.result = some v.id) :
    w.ReportsUse m f use k ↔ (∃ p, w.FlowPath m f use.ref p) ∧
      ¬ isDominated (w.domTree (w.flowGraph m) f) s use k := by
  have hd : definition? (w.sites f) v.id = some s := (definition?_eq_some_iff hn).2 ⟨hs, hr⟩
  have hf : w.useFinding? m f (w.domTree (w.flowGraph m) f) (w.sites f) use k v =
      if (w.domTree (w.flowGraph m) f).contains use.ref ∧
          !isDominated (w.domTree (w.flowGraph m) f) s use k then
        some (.notDominated ((w.func f).tempText v.id) s.block.label)
      else none := by
    simp only [useFinding?, ho, hk, hd, ne_eq, not_true_eq_false, if_false]
  rw [← contains_domTree_iff]
  constructor
  · rintro ⟨x, hx, rfl, rfl, _⟩
    obtain ⟨_, v', hv', hx⟩ := mem_useReports.1 hx
    obtain rfl : v = v' := Option.some.inj (hv.symm.trans hv')
    rw [hf] at hx
    split at hx
    next h => simpa using h
    next => exact absurd hx (by simp)
  · intro h
    refine ⟨⟨use, k, .notDominated ((w.func f).tempText v.id) s.block.label⟩,
      mem_useReports.2 ⟨hu, v, hv, ?_⟩, rfl, rfl, rfl⟩
    rw [hf, if_pos (by simpa using h)]

theorem not_isDominated_phi_iff (hop : use.instr.op = .phi) (hs : s ∈ w.sites f) :
    ¬ isDominated (w.domTree (w.flowGraph m) f) s use k ↔
      ∃ ran, w.ComesTo m f use k ran ∧ s ∉ ran := by
  -- A block that is missing or not reached has no end to come to.
  constructor
  · intro h
    simp only [isDominated, hop, if_true] at h
    split at h
    next => simp at h
    next a hi =>
      simp only [Bool.or_eq_true, Bool.not_eq_true', not_or, Bool.not_eq_false,
        contains_domTree_iff] at h
      obtain ⟨p, hp, hsp⟩ := (not_dominates_domTree_iff h.1).1 h.2
      exact ⟨_, .phi hop (Option.join_eq_some_iff.1 hi) hp, (mem_executed hs).not.2 hsp⟩
  · rintro ⟨_, hc, hsr⟩
    cases hc with
    | body hne => exact absurd hop hne
    | @phi a p _ hi hp =>
      rw [mem_executed hs] at hsr
      have hreach : ∃ p, w.FlowPath m f a p := ⟨p, hp⟩
      have hdom := (not_dominates_domTree_iff hreach).2 ⟨p, hp, hsr⟩
      simpa [isDominated, hop, hi, contains_domTree_iff.2 hreach] using hdom

theorem not_isDominated_body_iff (hop : use.instr.op ≠ .phi) (hs : s ∈ w.sites f)
    (hreach : ∃ p, w.FlowPath m f use.ref p) :
    ¬ isDominated (w.domTree (w.flowGraph m) f) s use k ↔
      ∃ ran, w.ComesTo m f use k ran ∧ s ∉ ran := by
  have hran : (∃ ran, w.ComesTo m f use k ran ∧ s ∉ ran) ↔
      ∃ p, w.FlowPath m f use.ref (p ++ [use.ref]) ∧ s.ref ∉ p ∧
        ¬ (s.ref = use.ref ∧ s.index < use.index) := by
    constructor
    · rintro ⟨_, hc, hsr⟩
      cases hc with
      | body _ hp =>
        rw [List.mem_append, mem_executed hs, mem_take_blockSites hs, not_or] at hsr
        exact ⟨_, hp, hsr⟩
      | phi hphi => exact absurd hphi hop
    · rintro ⟨p, hp, hsp⟩
      refine ⟨_, .body hop hp, ?_⟩
      rwa [List.mem_append, mem_executed hs, mem_take_blockSites hs, not_or]
  rw [hran, isDominated, if_neg hop]
  by_cases hsu : s.ref = use.ref
  · simp only [hsu, if_true, decide_eq_true_eq, true_and]
    constructor
    · intro hlt
      -- The first time that the block is reached, nothing of it has been executed.
      obtain ⟨p, hp⟩ := hreach
      obtain ⟨q, hq, hnot⟩ := hp.exists_first
      exact ⟨q, hq, hnot, hlt⟩
    · rintro ⟨_, _, _, hlt⟩
      exact hlt
  · simp only [hsu, if_false, false_and, not_false_eq_true, and_true,
      not_dominates_domTree_iff hreach]
    constructor
    · rintro ⟨p, hp, hsp⟩
      obtain ⟨q, _, rfl, _⟩ := hp.exists_arrival
      exact ⟨q, hp, fun hq => hsp (List.mem_append_left _ hq)⟩
    · rintro ⟨p, hp, hsp⟩
      exact ⟨_, hp, by simpa [hsu] using hsp⟩

/-- An operand that names the one definition of its temporary is reported as not dominated just when
its instruction is reached and some walk comes to the use without having executed the definition.
So the operand of a phi for a block that is missing or not reached is never reported. -/
theorem reportsUse_iff (hn : (results (w.sites f)).Nodup) (hu : use ∈ w.sites f)
    (hv : use.instr.operands[k]? = some v)
    (ho : checkOperand (w.contextOf m) (w.module m) (w.func f) v = .ok ()) (hk : v.kind = .result)
    (hs : s ∈ w.sites f) (hr : s.instr.result = some v.id) :
    (w.checkDominance m = (w.funcRefs m).flatMap fun g =>
      redefinitions (w.func g) [] (w.sites g) ++ (w.useReports m g).map (·.violation (w.func g))) ∧
    (w.ReportsUse m f use k ↔ (∃ p, w.FlowPath m f use.ref p) ∧
      ∃ ran, w.ComesTo m f use k ran ∧ s ∉ ran) ∧
    (use.instr.op = .phi → (∀ a p, use.instr.incoming[k]? = some (some a) → ¬ w.FlowPath m f a p) →
      ¬ w.ReportsUse m f use k) := by
  have hiff : w.ReportsUse m f use k ↔ (∃ p, w.FlowPath m f use.ref p) ∧
      ∃ ran, w.ComesTo m f use k ran ∧ s ∉ ran := by
    rw [reportsUse_iff_not_isDominated hn hu hv ho hk hs hr]
    refine and_congr_right fun hreach => ?_
    by_cases hop : use.instr.op = .phi
    · exact not_isDominated_phi_iff hop hs
    · exact not_isDominated_body_iff hop hs hreach
  refine ⟨checkDominance_eq w m, hiff, fun hop hnone hreport => ?_⟩
  obtain ⟨_, hc, _⟩ := (hiff.1 hreport).2
  cases hc with
  | body hne => exact hne hop
  | phi _ hi hp => exact hnone _ _ hi hp

def takesBoth : Instr :=
  { op := .phi, type := ⟨1, 1⟩, result := some 2
    operands := [.result ⟨1, 1⟩ 1 1, .result ⟨1, 1⟩ 1 1]
    incoming := [some ⟨⟨0, 0⟩, 1⟩, some ⟨⟨0, 0⟩, 2⟩] }

def halfDefined : World where
  contexts := [{
    widthLimit := 64, traces := false, modulesMade := 1, funcsMade := 1
    types := ⟨1, 64, false, [.int 32, .int 1, .fn ⟨1, 1⟩ [⟨1, 2⟩] false, .pointer 0, .void]⟩ }]
  modules := [{
    context := 1, name := "m", serial := 1, symbols := [("f", .func 0)]
    funcs := [{
      name := "f", type := ⟨1, 3⟩, retType := ⟨1, 1⟩, params := [⟨⟨1, 2⟩, 0⟩], serial := 1
      moduleSerial := 1, refType := ⟨1, 4⟩, temps := [⟨⟨1, 2⟩, "c"⟩, ⟨⟨1, 1⟩, "x"⟩, ⟨⟨1, 1⟩, "y"⟩]
      blocks := [
        ⟨"entry", some ⟨0, 0⟩, [
          { op := .condbr, type := ⟨1, 5⟩, operands := [.param ⟨1, 2⟩ 0 1]
            targets := [some ⟨⟨0, 0⟩, 1⟩, some ⟨⟨0, 0⟩, 2⟩] }]⟩,
        ⟨"left", some ⟨0, 0⟩, [
          { op := .zext, type := ⟨1, 1⟩, result := some 1, operands := [.param ⟨1, 2⟩ 0 1] },
          { op := .br, type := ⟨1, 5⟩, targets := [some ⟨⟨0, 0⟩, 3⟩] }]⟩,
        ⟨"right", some ⟨0, 0⟩, [{ op := .br, type := ⟨1, 5⟩, targets := [some ⟨⟨0, 0⟩, 3⟩] }]⟩,
        ⟨"join", some ⟨0, 0⟩, [
          takesBoth, { op := .ret, type := ⟨1, 5⟩, operands := [.result ⟨1, 1⟩ 2 1] }]⟩
        ].foldl .push .empty }] }]

theorem reportsUse_halfDefined : halfDefined.checkStructure 0 = [] ∧
    ∃ use ∈ halfDefined.sites ⟨0, 0⟩, ∃ s ∈ halfDefined.sites ⟨0, 0⟩,
      use.instr = takesBoth ∧ s.instr.result = some 1 ∧
      ¬ halfDefined.ReportsUse 0 ⟨0, 0⟩ use 0 ∧ halfDefined.ReportsUse 0 ⟨0, 0⟩ use 1 ∧
      ∃ ran, halfDefined.ComesTo 0 ⟨0, 0⟩ use 1 ran ∧ s ∉ ran := by
  have hreports : (halfDefined.useReports 0 ⟨0, 0⟩).map
      (fun x => (x.use.instr, x.operand, x.finding.code)) =
        [(takesBoth, 1, .useNotDominated)] := by cbv
  obtain ⟨x, hx, he⟩ := List.map_eq_singleton_iff.1 hreports
  obtain ⟨hi, hk, hc⟩ : x.use.instr = takesBoth ∧ x.operand = 1 ∧ x.finding.code = _ := by
    simpa using he
  have hmem : x ∈ halfDefined.useReports 0 ⟨0, 0⟩ := by simp [hx]
  have huse := (mem_useReports.1 hmem).1
  obtain ⟨s, hs, hr⟩ : ∃ s ∈ halfDefined.sites ⟨0, 0⟩, s.instr.result = some 1 := by decide
  have hreport : halfDefined.ReportsUse 0 ⟨0, 0⟩ x.use 1 := ⟨x, hmem, rfl, hk, hc⟩
  refine ⟨by cbv, x.use, huse, s, hs, hi, hr, ?_, hreport, ?_⟩
  · rintro ⟨y, hy, _, hk', _⟩
    obtain rfl : y = x := by simpa [hx] using hy
    exact absurd (hk.symm.trans hk') (by decide)
  · have hv : x.use.instr.operands[1]? = some (.result ⟨1, 1⟩ 1 1) := by rw [hi]; rfl
    exact ((reportsUse_iff (by decide) huse hv (by cbv) rfl hs hr).2.1.1 hreport).2

end TypedIR.World
