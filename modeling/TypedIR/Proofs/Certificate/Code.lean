import TypedIR.Proofs.Soundness.Basic

namespace TypedIR

def Instr.bare (i : Instr) : Instr := { i with loc := {} }

theorem Instr.eq_of_bare_eq {i j : Instr} (h : i.bare = j.bare) : i = { j with loc := i.loc } :=
  congrArg (fun k : Instr => { k with loc := i.loc }) h

def Block.code (b : Block) : List Instr := b.instrs.map Instr.bare

namespace Block

variable {b c : Block}

theorem length_of_code (h : b.code = c.code) : b.instrs.length = c.instrs.length := by
  simpa [code] using congrArg List.length h

theorem getElem?_of_code (h : b.code = c.code) {n : Nat} {i : Instr} (hi : b.instrs[n]? = some i) :
    ∃ j, c.instrs[n]? = some j ∧ i = { j with loc := i.loc } := by
  have hb : c.code[n]? = some i.bare := by rw [← h, code, List.getElem?_map, hi, Option.map_some]
  rw [code, List.getElem?_map, Option.map_eq_some_iff] at hb
  obtain ⟨j, hj, he⟩ := hb
  exact ⟨j, hj, Instr.eq_of_bare_eq he.symm⟩

theorem mem_take_of_code (h : b.code = c.code) {n : Nat} {i : Instr} (hi : i ∈ b.instrs.take n) :
    ∃ j ∈ c.instrs.take n, i = { j with loc := i.loc } := by
  have hb : i.bare ∈ (c.instrs.take n).map Instr.bare := by
    rw [List.map_take, ← code, ← h, code, ← List.map_take]
    exact List.mem_map_of_mem hi
  obtain ⟨j, hj, he⟩ := List.mem_map.1 hb
  exact ⟨j, hj, Instr.eq_of_bare_eq he.symm⟩

theorem mem_phis_of_code (h : b.code = c.code) {i : Instr} (hi : i ∈ b.phis) :
    ∃ j ∈ c.phis, i = { j with loc := i.loc } := by
  have hp (b : Block) : b.phis.map Instr.bare = b.code.takeWhile (·.op = .phi) := by
    rw [phis, code, List.takeWhile_map]
    rfl
  have hb : i.bare ∈ c.phis.map Instr.bare := by
    rw [hp c, ← h, ← hp b]
    exact List.mem_map_of_mem hi
  obtain ⟨j, hj, he⟩ := List.mem_map.1 hb
  exact ⟨j, hj, Instr.eq_of_bare_eq he.symm⟩

theorem terminator?_of_code (h : b.code = c.code) :
    b.terminator?.map Instr.bare = c.terminator?.map Instr.bare := by
  have ht (b : Block) : b.terminator?.map Instr.bare = b.code.getLast?.filter (·.op.isTerminator) := by
    rw [terminator?, code, List.getLast?_map, Option.filter_map]
    rfl
  rw [ht b, ht c, h]

theorem results_eq_code (b : Block) : b.results = b.code.filterMap (·.result) := by
  rw [results, code, List.filterMap_map]
  rfl

end Block

namespace World

def code (w : World) (f : FuncRef) : List (BlockRef × List Instr) :=
  (w.blocksOf f).map fun e => (e.1, e.2.code)

variable {w w' : World} {m : Nat} {f : FuncRef}

section Code

variable (h : w'.code f = w.code f)
include h

theorem block_of_code {b : BlockRef} {x' : Block} (hb : (b, x') ∈ w'.blocksOf f) :
    ∃ x, (b, x) ∈ w.blocksOf f ∧ x'.code = x.code := by
  have hc : (b, x'.code) ∈ w.code f := h ▸ List.mem_map.2 ⟨(b, x'), hb, rfl⟩
  obtain ⟨⟨b, x⟩, hx, he⟩ := List.mem_map.1 hc
  obtain ⟨rfl, hcode⟩ := Prod.mk.inj he
  exact ⟨x, hx, hcode.symm⟩

theorem site_of_code {s' : Site} (hs : s' ∈ w'.sites f) : ∃ s ∈ w.sites f, s'.ref = s.ref ∧
    s'.index = s.index ∧ s'.instr = { s.instr with loc := s'.instr.loc } := by
  obtain ⟨hf, hb, hi⟩ := mem_sites.1 hs
  obtain ⟨x, hx, hc⟩ := block_of_code h (mem_blocksOf.2 ⟨hf, hb⟩)
  obtain ⟨i, hi, he⟩ := Block.getElem?_of_code hc hi
  obtain ⟨_, hx⟩ := mem_blocksOf.1 hx
  exact ⟨⟨s'.ref, x, s'.index, i⟩, mem_sites.2 ⟨hf, hx, hi⟩, rfl, rfl, he⟩

theorem entryRef?_of_code : w'.entryRef? f = w.entryRef? f := by
  have he (w : World) : w.entryRef? f = (w.code f).head?.map Prod.fst := by
    rw [entryRef?, code, List.head?_map, Option.map_map]
    rfl
  rw [he w', he w, h]

theorem isDeclaration_of_code : (w'.func f).isDeclaration = (w.func f).isDeclaration := by
  have he (w : World) : (w.func f).isDeclaration = (w.code f).isEmpty := by
    simp [Func.isDeclaration, BlockList.isEmpty, code, blocksOf]
  rw [he w', he w, h]

theorem results_of_code : results (w'.sites f) = results (w.sites f) := by
  have he (w : World) : results (w.sites f) = (w.code f).flatMap fun e => e.2.filterMap (·.result) := by
    simp only [results_sites, Func.results, code, blocksOf, List.flatMap_map, Block.results_eq_code]
  rw [he w', he w, h]

end Code

def succsOfCode (is : List Instr) : List BlockRef :=
  match is.getLast?.filter (·.op.isTerminator) with
  | none => []
  | some i => (i.targets.filterMap id).eraseDups

theorem blockSuccs_eq {b : Block} (hb : ∀ i ∈ b.instrs, ∀ t ∈ i.targets, w.isBlockOf f t) :
    w.blockSuccs f b = succsOfCode b.code := by
  have he : b.code.getLast?.filter (·.op.isTerminator) = b.terminator?.map Instr.bare := by
    rw [Block.terminator?, Block.code, List.getLast?_map, Option.filter_map]
    rfl
  rw [blockSuccs, succsOfCode, he]
  cases ht : b.terminator? with
  | none => rfl
  | some i =>
    have hi : i ∈ b.instrs := List.mem_of_mem_getLast? (Option.filter_eq_some_iff.1 ht).1
    simp only [Option.map_some]
    rw [List.filter_eq_self.2 (hb i hi)]
    rfl

theorem flowGraph_of_code (hr : w'.funcRefs m = w.funcRefs m)
    (h : ∀ f ∈ w.funcRefs m, w'.code f = w.code f)
    (ht : ∀ f ∈ w.funcRefs m, ∀ s ∈ w.sites f, ∀ t ∈ s.instr.targets, w.isBlockOf f t)
    (ht' : ∀ f ∈ w.funcRefs m, ∀ s ∈ w'.sites f, ∀ t ∈ s.instr.targets, w'.isBlockOf f t) :
    w'.flowGraph m = w.flowGraph m := by
  have he (w : World) (f : FuncRef)
      (ht : ∀ s ∈ w.sites f, ∀ t ∈ s.instr.targets, w.isBlockOf f t) :
      (w.blocksOf f).map (fun e => (e.1, w.blockSuccs f e.2)) =
        (w.code f).map fun e => (e.1, succsOfCode e.2) := by
    rw [code, List.map_map]
    refine List.map_congr_left fun ⟨b, x⟩ hx => Prod.ext rfl (blockSuccs_eq fun i hi => ?_)
    obtain ⟨hf, hb⟩ := mem_blocksOf.1 hx
    obtain ⟨n, hn⟩ := List.mem_iff_getElem?.1 hi
    exact ht ⟨b, x, n, i⟩ (mem_sites.2 ⟨hf, hb, hn⟩)
  rw [flowGraph, flowGraph, hr]
  congr 1
  simp only [List.flatMap_def]
  congr 1
  exact List.map_congr_left fun f hf => by rw [he w' f (ht' f hf), he w f (ht f hf), h f hf]

end World

end TypedIR
