import TypedIR.Proofs.Verify.Reads

namespace TypedIR.World

variable {w : World} {m : Nat} {f : FuncRef} {b p : BlockRef} {x : Block} {i : Instr} {n : Nat}
  {v : Violation}

def BranchesTo (w : World) (m : Nat) (p b : BlockRef) : Prop :=
  p.func ∈ w.funcRefs m ∧ ∃ y t, w.block? p = some y ∧ y.terminator? = some t ∧ some b ∈ t.targets

/-- A phi has the blocks that branch to its own as incoming blocks, and for each of them one value. -/
structure Merges (w : World) (m : Nat) (b : BlockRef) (i : Instr) : Prop where
  incoming_iff : ∀ t, t ∈ i.incoming ↔ ∃ p, t = some p ∧ w.BranchesTo m p b
  agree : ∀ (j k : Nat) t, i.incoming[j]? = some t → i.incoming[k]? = some t →
    i.operands[j]? = i.operands[k]?

theorem mem_preds_iff_branchesTo (h : ∀ f ∈ w.funcRefs m, w.FuncShape (w.flowGraph m) f) :
    p ∈ (w.flowGraph m).preds b ↔ w.BranchesTo m p b := by
  rw [(isFunctional_flowGraph w m).mem_preds_iff, mem_succs_flowGraph]
  constructor
  · rintro ⟨hf, y, t, hy, ht, hb, -⟩
    exact ⟨hf, y, t, hy, ht, hb⟩
  · rintro ⟨hf, y, t, hy, ht, hb⟩
    have hlast := List.mem_of_getLast? (Option.filter_eq_some_iff.1 ht).1
    obtain ⟨k, hk⟩ := List.mem_iff_getElem?.1 hlast
    have hshape := ((h p.func hf).blocks p y (mem_blocksOf.2 ⟨rfl, hy⟩)).instrs k t hk
    exact ⟨hf, y, t, hy, ht, hb, hshape.targets _ hb⟩

theorem phiEdges_iff_merges (h : ∀ f ∈ w.funcRefs m, w.FuncShape (w.flowGraph m) f)
    (hlen : i.incoming.length = i.operands.length) :
    PhiEdges ((w.flowGraph m).preds b) i ↔ w.Merges m b i := by
  constructor
  · intro he
    have hagree : ∀ (j k : Nat) t, j < k → i.incoming[j]? = some t → i.incoming[k]? = some t →
        i.operands[j]? = i.operands[k]? := by
      intro j k t hjk hj hk
      exact he.agree j k t hjk hj hk (hlen ▸ (List.getElem?_eq_some_iff.1 hk).1)
    refine ⟨fun t => ⟨fun ht => ?_, ?_⟩, fun j k t hj hk => ?_⟩
    · obtain ⟨p, hp, rfl⟩ := he.preds t ht
      exact ⟨p, rfl, (mem_preds_iff_branchesTo h).1 hp⟩
    · rintro ⟨p, rfl, hp⟩
      exact he.covered p ((mem_preds_iff_branchesTo h).2 hp)
    · rcases Nat.lt_trichotomy j k with hjk | rfl | hkj
      · exact hagree j k t hjk hj hk
      · rfl
      · exact (hagree k j t hkj hk hj).symm
  · intro hm
    refine ⟨fun p hp => ?_, fun t ht => ?_, fun j k t _ hj hk _ => hm.agree j k t hj hk⟩
    · exact (hm.incoming_iff _).2 ⟨p, rfl, (mem_preds_iff_branchesTo h).1 hp⟩
    · obtain ⟨p, rfl, hp⟩ := (hm.incoming_iff t).1 ht
      exact ⟨p, (mem_preds_iff_branchesTo h).2 hp, rfl⟩

theorem Merges.existsUnique (h : w.Merges m b i) (hlen : i.incoming.length = i.operands.length)
    (hp : w.BranchesTo m p b) : ∃! v, v ∈ i.operandsFrom (some p) := by
  obtain ⟨k, hk⟩ := List.mem_iff_getElem?.1 ((h.incoming_iff (some p)).2 ⟨p, rfl, hp⟩)
  have hlt : k < i.operands.length := hlen ▸ (List.getElem?_eq_some_iff.1 hk).1
  have hv := List.getElem?_eq_getElem hlt
  refine ⟨i.operands[k], Instr.mem_operandsFrom.2 ⟨k, hk, hv⟩, fun u hu => ?_⟩
  obtain ⟨j, hj, hu⟩ := Instr.mem_operandsFrom.1 hu
  exact Option.some.inj (by rw [← hu, ← hv, h.agree j k _ hj hk])

theorem BlockShape.getElem?_phis_iff (h : w.BlockShape f x) :
    x.phis[n]? = some i ↔ x.instrs[n]? = some i ∧ i.op = .phi := by
  constructor
  · intro hi
    have hop := (List.mem_filter.1 (h.phis_eq ▸ List.mem_of_getElem? hi)).2
    rw [← x.phis_append_body, List.getElem?_append_left (List.getElem?_eq_some_iff.1 hi).1]
    exact ⟨hi, of_decide_eq_true hop⟩
  · rintro ⟨hi, hop⟩
    rw [← x.phis_append_body, List.getElem?_append] at hi
    split at hi
    next => exact hi
    next =>
      have hmem := h.body_eq ▸ List.mem_of_getElem? hi
      simp [hop] at hmem

theorem mem_checkPhiEdges : v ∈ w.checkPhiEdges m ↔ ∃ f ∈ w.funcRefs m, ∃ b x n i,
    (b, x) ∈ w.blocksOf f ∧ x.phis[n]? = some i ∧
      ∃ e ∈ w.phiFindings ((w.flowGraph m).preds b) x i, v = .atInstr (w.func f) x n e := by
  simp only [checkPhiEdges, List.mem_flatMap, mem_findAt, List.mem_map, Prod.exists]
  constructor
  · rintro ⟨f, hf, b, x, hx, n, i, hi, e, he, rfl⟩
    exact ⟨f, hf, b, x, n, i, hx, hi, e, he, rfl⟩
  · rintro ⟨f, hf, b, x, n, i, hx, hi, e, he, rfl⟩
    exact ⟨f, hf, b, x, hx, n, i, hi, e, he, rfl⟩

theorem Verified.of_phi (h : w.Verified m) (hf : f ∈ w.funcRefs m) (hx : (b, x) ∈ w.blocksOf f)
    (hi : x.instrs[n]? = some i) (hop : i.op = .phi) :
    i.incoming.length = i.operands.length ∧ (∀ v ∈ i.operands, v.type = i.type) ∧ w.Merges m b i := by
  obtain ⟨hb, hblock⟩ := mem_blocksOf.1 hx
  have hs : ⟨b, x, n, i⟩ ∈ w.sites f := mem_sites.2 ⟨hb, hblock, hi⟩
  have hrule := (checkInstr_eq_ok_iff.1 (h.typing f hf _ hs)).2.2
  simp only [Instr.checkRule, hop, Opcode.category] at hrule
  obtain ⟨-, hlen, htypes⟩ := Instr.checkPhi_iff.1 hrule
  have hphi := (((h.shape f hf).blocks b x hx).getElem?_phis_iff).2 ⟨hi, hop⟩
  have hedges := h.phis f hf b x hx i (List.mem_of_getElem? hphi)
  exact ⟨hlen, htypes, (phiEdges_iff_merges h.shape hlen).1 hedges⟩

/-- In a verified module every phi, reachable or not, selects one value for each block that branches to
its own, and has no other edges. Where the structure is right, nothing is reported of a phi just when its
edges are so. -/
theorem phis_merge (w : World) (m : Nat) :
    (∀ c, w.verify m = .ok c → ∀ f ∈ w.funcRefs m, ∀ b x, (b, x) ∈ w.blocksOf f →
      ∀ i ∈ x.instrs, i.op = .phi →
        i.incoming.length = i.operands.length ∧ (∀ v ∈ i.operands, v.type = i.type) ∧
        w.Merges m b i ∧ ∀ p, w.BranchesTo m p b → ∃! v, v ∈ i.operandsFrom (some p)) ∧
    (w.checkStructure m = [] →
      (∀ v, v ∈ w.checkPhiEdges m ↔ ∃ f ∈ w.funcRefs m, ∃ b x n i, (b, x) ∈ w.blocksOf f ∧
        x.instrs[n]? = some i ∧ i.op = .phi ∧
        ∃ e ∈ w.phiFindings ((w.flowGraph m).preds b) x i, v = .atInstr (w.func f) x n e) ∧
      ∀ b x i, i.incoming.length = i.operands.length →
        (w.phiFindings ((w.flowGraph m).preds b) x i = [] ↔ w.Merges m b i)) := by
  constructor
  · intro c hc f hf b x hx i hi hop
    have h := (verify_eq_ok_iff.1 hc).1
    obtain ⟨n, hn⟩ := List.mem_iff_getElem?.1 hi
    obtain ⟨hlen, htypes, hm⟩ := h.of_phi hf hx hn hop
    exact ⟨hlen, htypes, hm, fun p hp => hm.existsUnique hlen hp⟩
  · intro hs
    have hshape := checkStructure_eq_nil_iff.1 hs
    refine ⟨fun v => ?_, fun b x i hlen => phiFindings_eq_nil_iff.trans (phiEdges_iff_merges hshape hlen)⟩
    rw [mem_checkPhiEdges]
    constructor
    · rintro ⟨f, hf, b, x, n, i, hx, hi, he⟩
      obtain ⟨hi, hop⟩ := ((hshape f hf).blocks b x hx).getElem?_phis_iff.1 hi
      exact ⟨f, hf, b, x, n, i, hx, hi, hop, he⟩
    · rintro ⟨f, hf, b, x, n, i, hx, hi, hop, he⟩
      exact ⟨f, hf, b, x, n, i, hx, ((hshape f hf).blocks b x hx).getElem?_phis_iff.2 ⟨hi, hop⟩, he⟩

def folded : World where
  contexts := [{
    widthLimit := 64, traces := false, modulesMade := 1, funcsMade := 1
    types := ⟨1, 64, false, [.int 1, .fn ⟨1, 1⟩ [⟨1, 1⟩] false, .pointer 0, .void]⟩ }]
  modules := [{
    context := 1, name := "m", serial := 1, symbols := [("f", .func 0)]
    funcs := [{
      name := "f", type := ⟨1, 2⟩, retType := ⟨1, 1⟩, params := [⟨⟨1, 1⟩, 0⟩], serial := 1
      moduleSerial := 1, refType := ⟨1, 3⟩
      temps := [⟨⟨1, 1⟩, "c"⟩, ⟨⟨1, 1⟩, "x"⟩]
      blocks := [
        ⟨"entry", some ⟨0, 0⟩, [
          { op := .condbr, type := ⟨1, 4⟩, operands := [.param ⟨1, 1⟩ 0 1]
            targets := [some ⟨⟨0, 0⟩, 1⟩, some ⟨⟨0, 0⟩, 1⟩] }]⟩,
        ⟨"join", some ⟨0, 0⟩, [
          { op := .phi, type := ⟨1, 1⟩, result := some 1
            operands := [.param ⟨1, 1⟩ 0 1, .param ⟨1, 1⟩ 0 1]
            incoming := [some ⟨⟨0, 0⟩, 0⟩, some ⟨⟨0, 0⟩, 0⟩] },
          { op := .ret, type := ⟨1, 4⟩, operands := [.result ⟨1, 1⟩ 1 1] }]⟩
        ].foldl .push .empty }] }]

theorem phis_merge_folded : folded.verify 0 = .ok (folded.certificate 0) ∧
    folded.checkStructure 0 = [] ∧
    ∃ x i, folded.block? ⟨⟨0, 0⟩, 1⟩ = some x ∧ i ∈ x.instrs ∧ i.op = .phi ∧
      folded.Merges 0 ⟨⟨0, 0⟩, 1⟩ i ∧ folded.BranchesTo 0 ⟨⟨0, 0⟩, 0⟩ ⟨⟨0, 0⟩, 1⟩ ∧
      (∃! v, v ∈ i.operandsFrom (some ⟨⟨0, 0⟩, 0⟩)) ∧
      folded.phiFindings ((folded.flowGraph 0).preds ⟨⟨0, 0⟩, 1⟩) x i = [] := by
  have hv : folded.verify 0 = .ok (folded.certificate 0) :=
    verify_eq_ok_iff.2 ⟨violations_eq_nil_iff.1 (by cbv), rfl⟩
  have hs : folded.checkStructure 0 = [] := by cbv
  obtain ⟨x, i, hx, hi, hop⟩ : ∃ x i, folded.block? ⟨⟨0, 0⟩, 1⟩ = some x ∧ x.instrs[0]? = some i ∧
      i.op = .phi := ⟨_, _, rfl, rfl, rfl⟩
  have hi := List.mem_of_getElem? hi
  have hb := mem_blocksOf.2 ⟨rfl, hx⟩
  have hp : folded.BranchesTo 0 ⟨⟨0, 0⟩, 0⟩ ⟨⟨0, 0⟩, 1⟩ := ⟨by decide, _, _, rfl, rfl, by decide⟩
  obtain ⟨hselect, hreports⟩ := phis_merge folded 0
  obtain ⟨hlen, -, hm, hunique⟩ := hselect _ hv ⟨0, 0⟩ (by decide) _ x hb i hi hop
  exact ⟨hv, hs, x, i, hx, hi, hop, hm, hp, hunique _ hp, ((hreports hs).2 _ x i hlen).2 hm⟩

end TypedIR.World
