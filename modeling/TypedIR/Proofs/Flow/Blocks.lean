import TypedIR.Flow.Blocks
import TypedIR.Proofs.Flow.Dominance

namespace TypedIR

namespace BlockList

theorem nodup (bs : BlockList) : (bs.entries.map Prod.fst).Nodup :=
  bs.numbered.nodup_iff.2 List.nodup_range

theorem get?_eq_some_iff {bs : BlockList} {id : Nat} {b : Block} :
    bs.get? id = some b ↔ (id, b) ∈ bs.entries :=
  lookup_eq_some_iff_mem bs.nodup

end BlockList

namespace World

variable {w : World} {m : Nat} {f : FuncRef} {a b c : BlockRef} {x : Block}

@[simp] theorem mem_funcRefs : f ∈ w.funcRefs m ↔
    f.module = m ∧ f.index < (w.module m).funcs.length := by
  cases f
  simp [funcRefs]
  grind

theorem mem_blocksOf : (b, x) ∈ w.blocksOf f ↔ b.func = f ∧ w.block? b = some x := by
  cases b
  simp only [blocksOf, List.mem_map, Prod.exists, Prod.mk.injEq, BlockRef.mk.injEq, block?]
  constructor
  · rintro ⟨id, y, h, ⟨rfl, rfl⟩, rfl⟩
    exact ⟨rfl, BlockList.get?_eq_some_iff.2 h⟩
  · rintro ⟨rfl, h⟩
    exact ⟨_, _, BlockList.get?_eq_some_iff.1 h, ⟨rfl, rfl⟩, rfl⟩

theorem exists_of_isBlockOf {t : Option BlockRef} (h : w.isBlockOf f t) :
    ∃ b x, t = some b ∧ w.block? b = some x ∧ x.parent = some f := by
  cases t with
  | none => cases h
  | some b =>
    rw [isBlockOf, beq_iff_eq, parent?] at h
    obtain ⟨x, hx, hp⟩ := Option.bind_eq_some_iff.1 h
    exact ⟨b, x, rfl, hx, hp⟩

theorem mem_blockSuccs : b ∈ w.blockSuccs f x ↔
    ∃ i, x.terminator? = some i ∧ some b ∈ i.targets ∧ w.isBlockOf f (some b) := by
  cases h : x.terminator? <;> simp [blockSuccs, h]

theorem isFunctional_flowGraph (w : World) (m : Nat) : (w.flowGraph m).IsFunctional := by
  have hkeys : (w.flowGraph m).edges.map Prod.fst =
      (w.funcRefs m).flatMap fun f => (w.func f).blocks.entries.map fun e => ⟨f, e.1⟩ := by
    simp [flowGraph, blocksOf, List.map_flatMap, Function.comp_def]
  rw [FlowGraph.IsFunctional, hkeys, List.Nodup, List.pairwise_flatMap]
  constructor
  · intro f _
    have := (w.func f).blocks.nodup
    rw [List.Nodup, List.pairwise_map] at this
    rw [List.pairwise_map]
    exact this.imp fun h he => h (BlockRef.mk.inj he).2
  · rw [funcRefs, List.pairwise_map]
    refine List.nodup_range.imp fun {i j} hij a hi b hj hab => hij ?_
    obtain ⟨_, _, rfl⟩ := List.mem_map.1 hi
    obtain ⟨_, _, rfl⟩ := List.mem_map.1 hj
    simp only [BlockRef.mk.injEq, FuncRef.mk.injEq] at hab
    exact hab.1.2

theorem mem_succs_flowGraph : b ∈ (w.flowGraph m).succs a ↔
    a.func ∈ w.funcRefs m ∧ ∃ x i, w.block? a = some x ∧ x.terminator? = some i ∧
      some b ∈ i.targets ∧ w.isBlockOf a.func (some b) := by
  have hg := isFunctional_flowGraph w m
  rw [← hg.mem_preds_iff, FlowGraph.mem_preds]
  constructor
  · rintro ⟨bs, he, hb⟩
    obtain ⟨f, hf, he⟩ := List.mem_flatMap.1 he
    obtain ⟨⟨a, x⟩, hx, he⟩ := List.mem_map.1 he
    obtain ⟨rfl, rfl⟩ := Prod.mk.inj he
    obtain ⟨rfl, hblock⟩ := mem_blocksOf.1 hx
    obtain ⟨i, hi, hb⟩ := mem_blockSuccs.1 hb
    exact ⟨hf, x, i, hblock, hi, hb⟩
  · rintro ⟨hf, x, i, hx, hi, hb⟩
    exact ⟨w.blockSuccs a.func x,
      List.mem_flatMap.2 ⟨_, hf, List.mem_map.2 ⟨(a, x), mem_blocksOf.2 ⟨rfl, hx⟩, rfl⟩⟩,
      mem_blockSuccs.2 ⟨i, hi, hb⟩⟩

/-- A path from the entry of a function, along the edges of the flow graph. -/
def FlowPath (w : World) (m : Nat) (f : FuncRef) (b : BlockRef) (p : List BlockRef) : Prop :=
  ∃ entry, w.entryRef? f = some entry ∧ (w.flowGraph m).Path entry b p

def BlocksInPlace (w : World) : Prop := ∀ b x, w.block? b = some x → x.parent = some b.func

/-- The blocks of a module belong to the functions that hold them. -/
def KeepsBlocks (w : World) (m : Nat) : Prop :=
  ∀ b x, b.func.module = m → w.block? b = some x → x.parent = some b.func

theorem mem_funcRefs_of_block (h : w.block? b = some x) : b.func ∈ w.funcRefs b.func.module := by
  refine mem_funcRefs.2 ⟨rfl, Nat.lt_of_not_le fun hle => ?_⟩
  rw [block?, func, func?, List.getElem?_eq_none hle] at h
  cases h

theorem keepsBlocks_iff : w.KeepsBlocks m ↔
    ∀ f ∈ w.funcRefs m, ∀ e ∈ w.blocksOf f, e.2.parent = some f := by
  constructor
  · rintro h f hf ⟨b, x⟩ he
    obtain ⟨rfl, hx⟩ := mem_blocksOf.1 he
    exact h b x (mem_funcRefs.1 hf).1 hx
  · intro h b x hm hx
    exact h b.func (hm ▸ mem_funcRefs_of_block hx) (b, x) (mem_blocksOf.2 ⟨rfl, hx⟩)

theorem BlocksInPlace.func_of_isBlockOf (hw : w.BlocksInPlace) (hb : w.isBlockOf f (some b)) :
    b.func = f := by
  rw [isBlockOf, beq_iff_eq, parent?] at hb
  obtain ⟨x, hx, hf⟩ := Option.bind_eq_some_iff.1 hb
  rw [hw b x hx] at hf
  exact Option.some.inj hf

theorem BlocksInPlace.func_eq (hw : w.BlocksInPlace) {p : List BlockRef}
    (h : w.FlowPath m f b p) : b.func = f := by
  obtain ⟨entry, he, hp⟩ := h
  induction hp with
  | refl =>
    obtain ⟨⟨ref, x⟩, hx, rfl⟩ := Option.map_eq_some_iff.1 he
    exact (mem_blocksOf.1 (List.mem_of_mem_head? hx)).1
  | @step b c p _ hc ih =>
    obtain ⟨_, _, _, _, _, _, hparent⟩ := mem_succs_flowGraph.1 hc
    exact (hw.func_of_isBlockOf hparent).trans ih

theorem isTree_domTree {entry : BlockRef} (h : w.entryRef? f = some entry) :
    (w.flowGraph m).IsTree entry (w.domTree (w.flowGraph m) f) := by
  have hd : w.domTree (w.flowGraph m) f = (w.flowGraph m).domTree entry := by simp [domTree, h]
  rw [hd]
  exact FlowGraph.isTree_domTree (isFunctional_flowGraph w m) entry

theorem domTree_eq_empty (h : w.entryRef? f = none) (g : FlowGraph BlockRef) :
    w.domTree g f = .empty := by
  simp [domTree, h]

theorem contains_domTree_iff :
    (w.domTree (w.flowGraph m) f).contains b ↔ ∃ p, w.FlowPath m f b p := by
  cases he : w.entryRef? f with
  | none =>
    rw [domTree_eq_empty he]
    simp [DomTree.empty, DomTree.contains, ParentTable.isSet, FlowPath, he]
  | some entry =>
    rw [(isTree_domTree he).contains_iff]
    simp [FlowPath, FlowGraph.Reaches, he]

theorem dominates_domTree_iff : (w.domTree (w.flowGraph m) f).dominates a b ↔
    (∃ p, w.FlowPath m f b p) ∧ ∀ p, w.FlowPath m f b p → a ∈ p := by
  cases he : w.entryRef? f with
  | none =>
    rw [domTree_eq_empty he]
    simp [DomTree.empty, DomTree.dominates, DomTree.contains, ParentTable.isSet, FlowPath, he]
  | some entry =>
    rw [(isTree_domTree he).dominates_iff]
    simp [FlowPath, FlowGraph.Reaches, FlowGraph.Dominates, he]

theorem idom?_domTree_eq_none_iff : (w.domTree (w.flowGraph m) f).idom? b = none ↔
    w.entryRef? f = some b ∨ ¬ ∃ p, w.FlowPath m f b p := by
  cases he : w.entryRef? f with
  | none =>
    rw [domTree_eq_empty he]
    simp [DomTree.empty, DomTree.idom?, FlowPath, he]
  | some entry =>
    rw [(isTree_domTree he).idom?_eq_none_iff, eq_comm]
    simp [FlowPath, FlowGraph.Reaches, he]

theorem idom?_domTree_strict (h : (w.domTree (w.flowGraph m) f).idom? b = some a) :
    (w.domTree (w.flowGraph m) f).dominates a b ∧ a ≠ b := by
  cases he : w.entryRef? f with
  | none =>
    rw [domTree_eq_empty he] at h
    simp [DomTree.empty, DomTree.idom?] at h
  | some entry =>
    have ht : (w.flowGraph m).IsTree entry _ := isTree_domTree he
    obtain ⟨hb, hi⟩ := ht.isImmediateDominator h
    exact ⟨ht.dominates_iff.2 ⟨hb, hi.strict.1⟩, hi.strict.2⟩

theorem idom?_domTree_nearest (h : (w.domTree (w.flowGraph m) f).idom? b = some a)
    (hc : (w.domTree (w.flowGraph m) f).dominates c b) (hcb : c ≠ b) :
    (w.domTree (w.flowGraph m) f).dominates c a := by
  cases he : w.entryRef? f with
  | none =>
    rw [domTree_eq_empty he] at h
    simp [DomTree.empty, DomTree.idom?] at h
  | some entry =>
    have ht : (w.flowGraph m).IsTree entry _ := isTree_domTree he
    obtain ⟨hb, hi⟩ := ht.isImmediateDominator h
    exact ht.dominates_iff.2 ⟨hi.strict.1.reaches hb,
      hi.nearest c ⟨(ht.dominates_iff.1 hc).2, hcb⟩⟩

/-- What the dominator tree of a function says about paths, and how it is arrived at. -/
structure IsDominatorTree (w : World) (m : Nat) (f : FuncRef) (d : DomTree BlockRef) : Prop where
  dominates_iff : ∀ a b, d.dominates a b ↔
    (∃ p, w.FlowPath m f b p) ∧ ∀ p, w.FlowPath m f b p → a ∈ p
  idom?_eq_none_iff : ∀ b, d.idom? b = none ↔
    w.entryRef? f = some b ∨ ¬ ∃ p, w.FlowPath m f b p
  idom?_strict : ∀ a b, d.idom? b = some a → d.dominates a b ∧ a ≠ b
  idom?_nearest : ∀ a b c, d.idom? b = some a → d.dominates c b → c ≠ b → d.dominates c a
  ends : ∀ entry, w.entryRef? f = some entry →
    d.table.EndsIn ((w.flowGraph m).numberedPreds d.order) d.order.length

/-- The dominator tree of every function is computed in finitely many passes, and is right. -/
theorem isDominatorTree_domTree (w : World) (m : Nat) (f : FuncRef) :
    w.IsDominatorTree m f (w.domTree (w.flowGraph m) f) where
  dominates_iff _ _ := dominates_domTree_iff
  idom?_eq_none_iff _ := idom?_domTree_eq_none_iff
  idom?_strict _ _ := idom?_domTree_strict
  idom?_nearest _ _ _ := idom?_domTree_nearest
  ends _ he := (isTree_domTree he).ends

end World

end TypedIR
