import TypedIR.Proofs.Building.Outcome
import TypedIR.Proofs.Soundness.Functions

namespace TypedIR

namespace BuildState

variable {s : BuildState} {i : Instr} {givesValue : Bool} {x : Insertion} {b : BlockRef}
  {block : Block} {f : FuncRef}

theorem owned?_eq_some_iff : s.owned? b = some (block, f) ↔
    s.world.block? b = some block ∧ block.parent = some f ∧ f.module = s.builder.module := by
  cases hb : s.world.block? b with
  | none => simp [owned?, hb]
  | some y =>
    simp only [owned?, hb, Option.map_eq_some_iff, Prod.mk.injEq, Option.filter_eq_some_iff,
      decide_eq_true_eq, Option.some.injEq]
    grind

theorem of_target {pos : Nat} (h : s.target = .ok (b, block, f, pos)) :
    s.builder.cursor.block = some b ∧ pos = s.builder.cursor.before.getD block.instrs.length ∧
      s.world.block? b = some block ∧ block.parent = some f ∧ f.module = s.builder.module ∧
      pos ≤ block.instrs.length := by
  rw [target] at h
  split at h
  next b' hb' =>
    split at h
    next y f' ho =>
      have hb := owned?_eq_some_iff.1 ho
      split at h
      next hbefore =>
        obtain ⟨rfl, rfl, rfl, rfl⟩ := by simpa using h
        exact ⟨hb', by rw [hbefore, Option.getD_none], hb.1, hb.2.1, hb.2.2, Nat.le_refl _⟩
      next n hbefore =>
        simp only [ite_eq_ok_iff, seq_eq_ok_iff, throw_ne_ok, pure_eq_ok_iff, false_and, and_false,
          false_or, Prod.mk.injEq] at h
        obtain ⟨hn, rfl, rfl, rfl, rfl⟩ := h
        exact ⟨hb', by rw [hbefore, Option.getD_some], hb.1, hb.2.1, hb.2.2, Nat.le_of_not_lt hn⟩
    next => simp at h
  next => simp at h

/-- An insertion that was found to be in order. -/
structure Planned (s : BuildState) (i : Instr) (givesValue : Bool) (x : Insertion) (block : Block) :
    Prop where
  live : s.context.isDisposed = false
  cursor : s.builder.cursor.block = some x.block
  place : x.pos = s.builder.cursor.before.getD block.instrs.length
  found : s.world.block? x.block = some block
  parent : block.parent = some x.func
  module : x.func.module = s.builder.module
  pos : x.pos ≤ block.instrs.length
  operands : ∀ v ∈ i.operands,
    checkOperand s.context s.module (s.world.func x.func) v = .ok ()
  instr : x.instr = { i with
    result := if givesValue then some (s.world.func x.func).temps.length else i.result
    loc := s.builder.loc }
  typing : s.world.checkInstr s.builder.module x.func x.instr = .ok ()
  placement : block.checkPlacement x.instr.op x.pos = .ok ()

theorem planned_of_plan (h : s.plan i givesValue = .ok x) :
    ∃ block, s.Planned i givesValue x block := by
  simp only [plan, bind_eq_ok_iff, mapError_eq_ok_iff, pure_eq_ok_iff, Prod.exists] at h
  obtain ⟨_, hl, b, block, f, pos, ht, _, ho, _, htyping, _, hplace, rfl⟩ := h
  obtain ⟨hcursor, hplace', hb, hp, hm, hpos⟩ := of_target ht
  exact ⟨block, checkLive_iff.1 hl, hcursor, hplace', hb, hp, hm, hpos,
    fun v hv => mapError_eq_ok_iff.1 (forM_eq_ok_iff.1 ho v hv), rfl, htyping, hplace⟩

def inserted (x : Insertion) (givesValue : Bool) (name : String) (fn : Func) : Func :=
  let fn := if givesValue then (fn.newTemp x.instr.type name).2 else fn
  { fn with blocks := fn.blocks.modify x.block.id (·.insert x.pos x.instr) }

theorem world_commit (hx : x.block.func = x.func) (s : BuildState) (givesValue : Bool)
    (name : String) : (s.commit x givesValue name).world =
      s.world.modifyFunc x.func (inserted x givesValue name) := by
  cases givesValue with
  | false =>
    simp only [commit, World.modifyBlock, hx, Bool.false_eq_true, if_false]
    rfl
  | true =>
    simp only [commit, World.modifyBlock, hx, if_true, World.newTemp]
    rw [World.modifyFunc_modifyFunc]
    cases hf : s.world.func? x.func with
    | none => rw [World.modifyFunc_of_none hf, World.modifyFunc_of_none hf]
    | some fn =>
      rw [World.func_eq hf]
      exact World.modifyFunc_congr hf rfl

end BuildState

theorem Func.newTemp_eq (fn : Func) (type : TypeRef) (name : String) :
    ∃ t uses, (fn.newTemp type name).2 = { fn with temps := fn.temps ++ [t], tempUses := uses } ∧
      t.type = type := by
  rw [newTemp]
  split
  · exact ⟨⟨type, ""⟩, fn.tempUses, rfl, rfl⟩
  · exact ⟨⟨type, _⟩, _, rfl, rfl⟩

theorem Func.grows_newTemp (fn : Func) (type : TypeRef) (name : String) :
    fn.Grows (fn.newTemp type name).2 := by
  obtain ⟨t, uses, he, _⟩ := fn.newTemp_eq type name
  rw [he]
  exact ⟨⟨rfl, rfl, rfl, List.prefix_rfl⟩, rfl, rfl, rfl, by simp, fun _ x h => ⟨x, h, rfl⟩⟩

theorem Block.parent_insert (b : Block) (pos : Nat) (i : Instr) :
    (b.insert pos i).parent = b.parent := rfl

theorem Func.grows_modify {g : Block → Block} (hg : ∀ b, (g b).parent = b.parent) (fn : Func)
    (id : Nat) : fn.Grows { fn with blocks := fn.blocks.modify id g } := by
  refine ⟨⟨rfl, rfl, rfl, by simp [BlockList.modify, Function.comp_def]⟩, rfl, rfl, rfl,
    List.prefix_rfl, fun k x hx => ?_⟩
  rw [BlockList.get?_modify]
  split
  next he => exact ⟨g x, by rw [hx, Option.map_some], hg x⟩
  next => exact ⟨x, hx, rfl⟩

namespace BuildState

variable {s : BuildState} {i : Instr} {givesValue : Bool} {x : Insertion} {block : Block}
  {name : String} {fn : Func}

theorem grows_commit (s : BuildState) (x : Insertion) (givesValue : Bool) (name : String) :
    s.world.Grows (s.commit x givesValue name).world := by
  have hinsert (w : World) : w.Grows (w.modifyBlock x.block (·.insert x.pos x.instr)) :=
    World.grows_modifyFunc (Func.grows_modify (fun b => b.parent_insert x.pos x.instr) _ _)
  cases givesValue with
  | false => exact hinsert s.world
  | true => exact (World.grows_modifyFunc (Func.grows_newTemp _ _ _)).trans (hinsert _)

theorem grows_inserted (x : Insertion) (givesValue : Bool) (name : String) (fn : Func) :
    fn.Grows (inserted x givesValue name fn) := by
  cases givesValue with
  | false => exact Func.grows_modify (fun b => b.parent_insert x.pos x.instr) fn _
  | true =>
    exact (Func.grows_newTemp fn _ _).trans
      (Func.grows_modify (fun b => b.parent_insert x.pos x.instr) _ _)

theorem blocks_inserted (x : Insertion) (givesValue : Bool) (name : String) (fn : Func) :
    (inserted x givesValue name fn).blocks =
      fn.blocks.modify x.block.id (·.insert x.pos x.instr) := by
  cases givesValue with
  | false => rfl
  | true =>
    obtain ⟨t, uses, he, _⟩ := fn.newTemp_eq x.instr.type name
    simp [inserted, he]

theorem get?_inserted {id : Nat} {y : Block} (hb : fn.blocks.get? x.block.id = some block)
    (hy : (inserted x givesValue name fn).blocks.get? id = some y) :
    fn.blocks.get? id = some y ∨ id = x.block.id ∧ y = block.insert x.pos x.instr := by
  rw [blocks_inserted, BlockList.get?_modify] at hy
  split at hy
  next he =>
    rw [he, hb, Option.map_some, Option.some.injEq] at hy
    exact .inr ⟨he, hy.symm⟩
  next => exact .inl hy

theorem temps_inserted (x : Insertion) (givesValue : Bool) (name : String) (fn : Func) :
    ∃ new, (inserted x givesValue name fn).temps = fn.temps ++ new ∧
      (∀ t ∈ new, t.type = x.instr.type) ∧ new.length = if givesValue then 1 else 0 := by
  cases givesValue with
  | false => exact ⟨[], by simp [inserted]⟩
  | true =>
    obtain ⟨t, uses, he, ht⟩ := fn.newTemp_eq x.instr.type name
    exact ⟨[t], by simp [inserted, he, ht]⟩

namespace Planned

variable (h : s.Planned i givesValue x block)
include h

theorem instrSound (ht : i.RestTypes s.context.types) : s.world.InstrSound x.func x.instr := by
  have hrule := (World.checkInstr_eq_ok_iff.1 h.typing).2.2
  have hm := h.module
  have ho : ∀ v ∈ x.instr.operands,
      checkOperand s.context s.module (s.world.func x.func) v = .ok () := by
    rw [h.instr]
    exact h.operands
  have hrest : x.instr.RestTypes s.context.types := by
    rw [h.instr]
    exact ⟨ht.result, ht.operand⟩
  constructor
  · rw [hm]
    exact ho
  · rw [hm]
    exact Instr.instrTypes_of_checkRule ho hrest hrule
  · rw [hm]
    exact h.typing

theorem func_block (ht : s.world.Tidy) : x.block.func = x.func := by
  have hp := ht.blocks _ _ h.found
  exact Option.some.inj (hp.symm.trans h.parent)

theorem exists_func (ht : s.world.Tidy) : ∃ fn, s.world.func? x.func = some fn ∧
    fn.blocks.get? x.block.id = some block := by
  obtain ⟨fn, hf, hb⟩ := World.func?_of_block? h.found
  exact ⟨fn, h.func_block ht ▸ hf, hb⟩

theorem results_perm (hf : s.world.func? x.func = some fn)
    (hb : fn.blocks.get? x.block.id = some block) (hr : givesValue = false → i.result = none)
    (hs : s.world.FuncSound x.func) :
    (inserted x givesValue name fn).results.Perm
      (List.range' (inserted x givesValue name fn).params.length
        ((inserted x givesValue name fn).temps.length -
          (inserted x givesValue name fn).params.length)) := by
  obtain ⟨new, htemps, _, hlen⟩ := temps_inserted x givesValue name fn
  have hparams := (grows_inserted x givesValue name fn).params
  have hperm : (inserted x givesValue name fn).results.Perm
      (x.instr.result.toList ++ fn.results) := by
    rw [Func.results, blocks_inserted]
    exact BlockList.perm_flatMap_modify (r := Block.results) hb (Block.results_insert block _ _)
  have hold := hs.results
  have hle := hs.params
  rw [World.func_eq hf] at hold hle
  rw [htemps, hparams, List.length_append, hlen]
  refine hperm.trans ?_
  cases givesValue with
  | false =>
    have hn : x.instr.result = none := by simp [h.instr, hr rfl]
    simpa [hn] using hold
  | true =>
    have hn : x.instr.result = some fn.temps.length := by simp [h.instr, World.func_eq hf]
    have he : List.range' fn.params.length (fn.temps.length + 1 - fn.params.length) =
        List.range' fn.params.length (fn.temps.length - fn.params.length) ++ [fn.temps.length] := by
      rw [Nat.succ_sub hle, List.range'_1_concat, Nat.add_sub_cancel' hle]
    simp only [hn, Option.toList_some, if_true, he, List.singleton_append]
    exact (hold.cons _).trans (List.perm_append_singleton _ _).symm

theorem funcSound (hf : s.world.func? x.func = some fn)
    (hb : fn.blocks.get? x.block.id = some block) (hr : givesValue = false → i.result = none)
    (hrest : i.RestTypes s.context.types) {w : World} (hg : s.world.Grows w) (ht : s.world.Tidy)
    (hs : s.world.FuncSound x.func) (hf' : w.func? x.func = some (inserted x givesValue name fn))
    (hl : (w.contextOf x.func.module).isDisposed = false) : w.FuncSound x.func := by
  have hnew := h.instrSound hrest
  have hgrows := grows_inserted x givesValue name fn
  have himported := hs.imported
  have htemps := hs.temps
  have hordered := hs.ordered
  have hinstrs := hs.instrs
  rw [World.func_eq hf] at himported htemps hordered hinstrs
  refine hs.update hg ht hf hf' hl (fun hi => ?_) (fun t ht => ?_) (h.results_perm hf hb hr hs)
    (fun id y hy => ?_) fun id y hy j hj => ?_
  · have hd := himported (hgrows.linkage ▸ hi)
    simp [World.isDeclaration_of_get? hb] at hd
  · obtain ⟨new, he, hnewTemps, _⟩ := temps_inserted x givesValue name fn
    rw [he, List.mem_append] at ht
    rcases ht with ht | ht
    · exact htemps t ht
    · rw [hnewTemps t ht]
      exact hnew.types.result
  · rcases get?_inserted hb hy with hy | ⟨_, rfl⟩
    · exact hordered id y hy
    · exact (hordered _ _ hb).insert h.pos h.placement
  · rcases get?_inserted hb hy with hy | ⟨_, rfl⟩
    · exact hinstrs id y hy j hj
    · rw [Block.insert, List.mem_append, List.mem_cons] at hj
      rcases hj with hj | rfl | hj
      · exact hinstrs _ _ hb j (List.mem_of_mem_take hj)
      · exact hnew
      · exact hinstrs _ _ hb j (List.mem_of_mem_drop hj)

theorem advances_commit (hr : givesValue = false → i.result = none)
    (hrest : s.world.Tidy → s.context.isDisposed = false → i.RestTypes s.context.types) :
    s.world.Advances (s.commit x givesValue name).world := by
  have hadv (ht : s.world.Tidy) : s.world.Advances (s.commit x givesValue name).world := by
    obtain ⟨fn, hf, hb⟩ := h.exists_func ht
    rw [world_commit (h.func_block ht)]
    refine World.advances_modifyFunc hf (grows_inserted x givesValue name fn) (fun _ id y hy => ?_)
      fun _ hl hs hg hf' => h.funcSound hf hb hr (hrest ht h.live) hg ht hs hf' (by simpa using hl)
    rcases get?_inserted hb hy with hy | ⟨_, rfl⟩
    · exact ht.blocks ⟨x.func, id⟩ y (by rwa [World.block?, World.func_eq hf])
    · exact h.parent
  exact ⟨grows_commit s x givesValue name, fun ht => (hadv ht).tidy ht,
    fun ht => (hadv ht).sound ht⟩

end Planned

end BuildState

end TypedIR
