import TypedIR.Proofs.Soundness.Insertion

namespace TypedIR

theorem mem_modify {α : Type} {xs : List α} {n : Nat} {g : α → α} {a : α} (h : a ∈ xs.modify n g) :
    a ∈ xs ∨ ∃ b, xs[n]? = some b ∧ a = g b := by
  obtain ⟨k, hk⟩ := List.mem_iff_getElem?.1 h
  rw [List.getElem?_modify] at hk
  by_cases hn : n = k
  · subst hn
    obtain ⟨b, hb, he⟩ : ∃ b, xs[n]? = some b ∧ g b = a := by simpa using hk
    exact .inr ⟨b, hb, he.symm⟩
  · exact .inl (List.mem_of_getElem? (by simpa [hn] using hk))

theorem Block.instrs_of_phis {b : Block} {n : Nat} {i : Instr} (h : b.phis[n]? = some i) :
    b.instrs[n]? = some i := by
  have hsplit : b.phis ++ b.instrs.dropWhile (·.op = .phi) = b.instrs := List.takeWhile_append_dropWhile
  rw [← hsplit, List.getElem?_append_left (List.getElem?_eq_some_iff.1 h).1]
  exact h

theorem Func.of_phiSite? {fn : Func} {self : FuncRef} {id : Nat} {site : InstrRef} {i : Instr}
    (h : fn.phiSite? self id = some (site, i)) : site.block.func = self ∧ i.result = some id ∧
      ∃ x, fn.blocks.get? site.block.id = some x ∧ x.phis[site.index]? = some i := by
  obtain ⟨⟨k, x⟩, he, h⟩ := List.exists_of_findSome?_eq_some h
  obtain ⟨⟨j, n⟩, hj, h⟩ := Option.map_eq_some_iff.1 h
  obtain ⟨rfl, rfl⟩ := Prod.mk.inj h
  have hhead := List.mem_zipIdx_iff_getElem?.1 (List.mem_of_find?_eq_some hj)
  exact ⟨rfl, by simpa using List.find?_some hj, x, BlockList.get?_eq_some_iff.2 he, hhead⟩

namespace Instr

def addEdge (i : Instr) (block : BlockRef) (v : Value) : Instr :=
  { i with incoming := i.incoming ++ [some block], operands := i.operands ++ [v] }

end Instr

def Block.addEdge (b : Block) (index : Nat) (block : BlockRef) (v : Value) : Block :=
  { b with instrs := b.instrs.modify index (·.addEdge block v) }

theorem Block.results_addEdge (b : Block) (index : Nat) (block : BlockRef) (v : Value) :
    (b.addEdge index block v).results = b.results :=
  results_modify fun _ => rfl

theorem Block.parent_addEdge (b : Block) (index : Nat) (block : BlockRef) (v : Value) :
    (b.addEdge index block v).parent = b.parent := rfl

namespace World

variable {w : World} {f : FuncRef} {i : Instr} {block : BlockRef} {v : Value}

theorem InstrSound.addEdge (hi : w.InstrSound f i) (hop : i.op = .phi)
    (hb : w.isBlockOf f (some block))
    (hv : checkOperand (w.contextOf f.module) (w.module f.module) (w.func f) v = .ok ())
    (ht : v.type = i.type) : w.InstrSound f (i.addEdge block v) := by
  obtain ⟨hshape, hblocks, hrule⟩ := checkInstr_eq_ok_iff.1 hi.typing
  have hshape := Instr.checkShape_iff.1 hshape
  refine ⟨?_, ⟨hi.types.result, hi.types.operand, ?_⟩, checkInstr_eq_ok_iff.2 ⟨?_, ?_, ?_⟩⟩
  · intro u hu
    rcases List.mem_append.1 hu with hu | hu
    · exact hi.operands u hu
    · exact List.mem_singleton.1 hu ▸ hv
  · intro u hu
    rcases List.mem_append.1 hu with hu | hu
    · exact hi.types.operands u hu
    · exact List.mem_singleton.1 hu ▸ (checkOperand_iff.1 hv).1
  · refine Instr.checkShape_iff.2 ⟨?_, ?_, hshape.successors, hshape.never, hshape.always, ?_⟩
    · simp [Instr.addEdge, hop, Opcode.minOperands]
    · simp [Instr.addEdge, hop, Opcode.maxOperands?]
    · exact fun hne => absurd hop hne
  · rw [Instr.checkBlocks_iff] at hblocks ⊢
    refine ⟨hblocks.1, fun t ht => ?_⟩
    rcases List.mem_append.1 ht with ht | ht
    · exact hblocks.2 t ht
    · exact List.mem_singleton.1 ht ▸ hb
  · simp only [Instr.checkRule, Instr.addEdge, hop, Opcode.category, Instr.checkPhi_iff] at hrule ⊢
    refine ⟨hrule.1, by simp [hrule.2.1], fun u hu => ?_⟩
    rcases List.mem_append.1 hu with hu | hu
    · exact hrule.2.2 u hu
    · exact List.mem_singleton.1 hu ▸ ht

end World

namespace BuildState

variable {s : BuildState} {phi v : Value} {block : BlockRef} {site : InstrRef}

structure EdgePlanned (s : BuildState) (block : BlockRef) (v : Value) (site : InstrRef) (fn : Func)
    (x : Block) (i : Instr) : Prop where
  live : s.context.isDisposed = false
  module : site.block.func.module = s.builder.module
  func : s.world.func? site.block.func = some fn
  found : fn.blocks.get? site.block.id = some x
  instr : x.instrs[site.index]? = some i
  op : i.op = .phi
  parent : s.world.parent? block = some site.block.func
  operand : checkOperand s.context s.module fn v = .ok ()
  type : v.type = i.type

structure NamesPhi (phi : Value) (site : InstrRef) (fn : Func) (x : Block) (i : Instr) : Prop where
  kind : phi.kind = .result
  scope : phi.scope = fn.serial
  head : x.phis[site.index]? = some i
  result : i.result = some phi.id

theorem exists_of_funcOfSerial? {m : Module} {serial index : Nat}
    (h : m.funcOfSerial? serial = some index) :
    ∃ fn, m.funcs[index]? = some fn ∧ fn.serial = serial := by
  obtain ⟨⟨fn, k⟩, hlast, rfl⟩ := Option.map_eq_some_iff.1 h
  obtain ⟨hmem, hserial⟩ := List.mem_filter.1 (List.mem_of_getLast? hlast)
  exact ⟨fn, by simpa using List.mem_zipIdx_iff_getElem?.1 hmem, of_decide_eq_true hserial⟩

theorem named_of_planIncoming (h : s.planIncoming phi block v = .ok site) :
    ∃ fn x i, s.EdgePlanned block v site fn x i ∧ NamesPhi phi site fn x i := by
  rw [planIncoming] at h
  obtain ⟨hl, h⟩ := seq_eq_ok_iff.1 h
  cases hi : s.module.funcOfSerial? phi.scope with
  | none => simp [hi] at h
  | some index =>
    let f : FuncRef := ⟨s.builder.module, index⟩
    obtain ⟨fn, hf, hserial⟩ := exists_of_funcOfSerial? hi
    have hf : s.world.func? f = some fn := hf
    cases hp : (s.world.func f).phiSite? f phi.id with
    | none => simp [hi, f, hp, ite_eq_ok_iff] at h
    | some y =>
      obtain ⟨site', i⟩ := y
      simp only [hi, hp, f, ite_eq_ok_iff, bind_eq_ok_iff, throw_ne_ok, pure_eq_ok_iff, false_and,
        exists_false, and_false, false_or, mapError_eq_ok_iff, Classical.not_not] at h
      obtain ⟨hkind, hpar, _, ho, ht, rfl⟩ := h
      rw [World.func_eq hf] at hp ho
      obtain ⟨hsite, hresult, x, hx, hhead⟩ := Func.of_phiSite? hp
      refine ⟨_, x, i, ?_, hkind, hserial.symm, hhead, hresult⟩
      exact ⟨checkLive_iff.1 hl, by rw [hsite], by rw [hsite]; exact hf, hx, Block.instrs_of_phis hhead,
        Block.op_of_mem_phis (List.mem_of_getElem? hhead), by rw [hsite]; exact hpar, ho, ht⟩

theorem planned_of_planIncoming (h : s.planIncoming phi block v = .ok site) :
    ∃ fn x i, s.EdgePlanned block v site fn x i := by
  obtain ⟨fn, x, i, hplan, -⟩ := named_of_planIncoming h
  exact ⟨fn, x, i, hplan⟩

theorem EdgePlanned.advances {fn : Func} {x : Block} {i : Instr}
    (h : s.EdgePlanned block v site fn x i) :
    s.world.Advances (s.world.modifyBlock site.block (·.addEdge site.index block v)) := by
  refine World.advances_modifyFunc h.func
    (Func.grows_modify (fun b => b.parent_addEdge site.index block v) fn _)
    (fun ht id y hy => ?_) fun ht hl hs hg hf' => ?_
  · have hparent := fun y hy => ht.blocks ⟨site.block.func, id⟩ y
      (by rwa [World.block?, World.func_eq h.func])
    rw [BlockList.get?_modify] at hy
    split at hy
    · obtain ⟨z, hz, rfl⟩ := Option.map_eq_some_iff.1 hy
      exact hparent z hz
    · exact hparent y hy
  · have himported := hs.imported
    have htemps := hs.temps
    have hresults := hs.results
    have hordered := hs.ordered
    have hinstrs := hs.instrs
    rw [World.func_eq h.func] at himported htemps hresults hordered hinstrs
    refine hs.update hg ht h.func hf' (by simpa using hl) (fun hi => ?_) htemps ?_
      (fun id y hy => ?_) fun id y hy j hj => ?_
    · simpa [World.isDeclaration_of_get? h.found] using himported hi
    · refine List.Perm.trans ?_ hresults
      have hsame : ((x.addEdge site.index block v).results).Perm ([] ++ x.results) := by
        rw [Block.results_addEdge]
        exact .refl _
      exact BlockList.perm_flatMap_modify (r := Block.results)
        (g := fun y => y.addEdge site.index block v) h.found hsame
    · rw [BlockList.get?_modify] at hy
      split at hy
      · obtain ⟨z, hz, rfl⟩ := Option.map_eq_some_iff.1 hy
        exact (hordered id z hz).modify fun _ => rfl
      · exact hordered id y hy
    · rw [BlockList.get?_modify] at hy
      split at hy
      next he =>
        rw [he, h.found, Option.map_some, Option.some.injEq] at hy
        subst hy
        rcases mem_modify hj with hj | ⟨k, hk, rfl⟩
        · exact hinstrs _ x h.found j hj
        · obtain rfl : i = k := Option.some.inj (h.instr.symm.trans hk)
          refine (hinstrs _ x h.found i (List.mem_of_getElem? h.instr)).addEdge h.op ?_ ?_ h.type
          · rw [World.isBlockOf, h.parent]
            exact beq_self_eq_true _
          · rw [h.module, World.func_eq h.func]
            exact h.operand
      next => exact hinstrs id y hy j hj

end BuildState

end TypedIR
