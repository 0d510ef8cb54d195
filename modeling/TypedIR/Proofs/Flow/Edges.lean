import TypedIR.Proofs.Flow.Blocks

namespace TypedIR

namespace FlowGraph

variable {α : Type} [DecidableEq α]

def note (passes : Option α → Bool) (out : List α) (target : Option α) : List α :=
  match target with
  | none => out
  | some b => if passes (some b) ∧ b ∉ out then out ++ [b] else out

theorem foldl_note (passes : Option α → Bool) (targets : List (Option α)) (out : List α) :
    targets.foldl (note passes) out =
      out ++ (((targets.filter passes).filterMap id).filter fun b => !decide (b ∈ out)).eraseDups := by
  induction targets generalizing out with
  | nil => simp
  | cons t targets ih =>
    rw [List.foldl_cons, ih]
    cases t with
    | none =>
      rw [note]
      cases hp : passes none <;> simp [hp]
    | some b =>
      by_cases hb : passes (some b) ∧ b ∉ out
      · have hrest (bs : List α) : (bs.filter fun c => !decide (c ∈ out ++ [b])) =
            (bs.filter fun c => !decide (c ∈ out)).filter fun c => !c == b := by
          rw [List.filter_filter]
          refine List.filter_congr fun c _ => ?_
          by_cases hc : c = b <;> simp [hc]
        rw [note, if_pos hb, hrest, List.filter_cons_of_pos hb.1]
        simp [hb.2, List.eraseDups_cons]
      · rw [note, if_neg hb]
        by_cases hp : passes (some b)
        · have hout : b ∈ out := Classical.not_not.1 fun hn => hb ⟨hp, hn⟩
          simp [hp, hout]
        · simp [hp]

@[simp]
theorem mem_note {passes : Option α → Bool} {out : List α} {t : Option α} {b : α} :
    b ∈ note passes out t ↔ b ∈ out ∨ t = some b ∧ passes t := by
  cases t with
  | none => simp [note]
  | some c =>
    by_cases hc : passes (some c) ∧ c ∉ out
    · rw [note, if_pos hc]
      simp [hc.1, eq_comm]
    · rw [note, if_neg hc]
      refine (or_iff_left_of_imp ?_).symm
      rintro ⟨he, hp⟩
      obtain rfl := Option.some.inj he
      exact Classical.not_not.1 fun hn => hc ⟨hp, hn⟩

structure Noted (passes : Option α → Bool) (targets : List (Option α)) (out : List α) : Prop where
  mem_iff : ∀ b, b ∈ out ↔ some b ∈ targets ∧ passes (some b)
  ordered : out.Pairwise fun a b => targets.idxOf (some a) < targets.idxOf (some b)

variable {passes : Option α → Bool} {targets before : List (Option α)} {out : List α}

theorem Noted.note (h : Noted passes targets out) (t : Option α) :
    Noted passes (targets ++ [t]) (note passes out t) where
  mem_iff b := by
    rw [mem_note, h.mem_iff, List.mem_append, List.mem_singleton, or_and_right, eq_comm (a := t)]
    refine or_congr_right (and_congr_right ?_)
    rintro rfl
    rfl
  ordered := by
    have hkept : out.Pairwise fun a b =>
        (targets ++ [t]).idxOf (some a) < (targets ++ [t]).idxOf (some b) := by
      refine h.ordered.imp_of_mem fun {a b} ha hb hab => ?_
      rwa [List.idxOf_append_of_mem ((h.mem_iff a).1 ha).1,
        List.idxOf_append_of_mem ((h.mem_iff b).1 hb).1]
    cases t with
    | none => exact hkept
    | some b =>
      by_cases hb : passes (some b) ∧ b ∉ out
      · have hnew : some b ∉ targets := fun hmem => hb.2 ((h.mem_iff b).2 ⟨hmem, hb.1⟩)
        rw [FlowGraph.note, if_pos hb]
        refine List.pairwise_append.2 ⟨hkept, List.pairwise_singleton _ _, fun a ha c hc => ?_⟩
        obtain rfl := List.mem_singleton.1 hc
        have ha := ((h.mem_iff a).1 ha).1
        rw [List.idxOf_append_of_mem ha, List.idxOf_append_of_notMem hnew]
        exact Nat.lt_add_right _ (List.idxOf_lt_length_of_mem ha)
      · rwa [FlowGraph.note, if_neg hb]

theorem Noted.foldl (h : Noted passes before out) (targets : List (Option α)) :
    Noted passes (before ++ targets) (targets.foldl (FlowGraph.note passes) out) := by
  induction targets generalizing before out with
  | nil => simpa using h
  | cons t targets ih => simpa using ih (h.note t)

theorem Noted.nodup (h : Noted passes targets out) : out.Nodup := by
  refine h.ordered.imp fun {a b} hlt => ?_
  rintro rfl
  exact Nat.lt_irrefl _ hlt

def write (table : α → List α) (a : α) (bs : List α) : α → List α :=
  bs.foldl (fun table b c => if c = b then table c ++ [a] else table c) table

theorem write_apply {bs : List α} (h : bs.Nodup) (table : α → List α) (a c : α) :
    write table a bs c = if c ∈ bs then table c ++ [a] else table c := by
  induction bs generalizing table with
  | nil => simp [write]
  | cons b bs ih =>
    rw [List.nodup_cons] at h
    have hstep : write table a (b :: bs) =
        write (fun c => if c = b then table c ++ [a] else table c) a bs := rfl
    rw [hstep, ih h.2]
    by_cases hc : c = b
    · simp [hc, h.1]
    · simp [hc]

theorem foldl_write_apply {edges : List (α × List α)} (h : ∀ e ∈ edges, e.2.Nodup)
    (table : α → List α) (c : α) : edges.foldl (fun table e => write table e.1 e.2) table c =
      table c ++ (edges.filter (c ∈ ·.2)).map Prod.fst := by
  induction edges generalizing table with
  | nil => simp
  | cons e edges ih =>
    rw [List.forall_mem_cons] at h
    rw [List.foldl_cons, ih h.2, write_apply h.1]
    by_cases hc : c ∈ e.2 <;> simp [hc]

end FlowGraph

theorem flatMap_eq_of_mem {α β : Type} {xs : List α} {parts : α → List β} {a : α} (hxs : xs.Nodup)
    (ha : a ∈ xs) (h : ∀ b ∈ xs, b ≠ a → parts b = []) : xs.flatMap parts = parts a := by
  obtain ⟨before, after, rfl⟩ := List.append_of_mem ha
  have hne := (List.nodup_cons.1 (List.perm_middle.nodup_iff.1 hxs)).1
  have hempty : ∀ b ∈ before ++ after, parts b = [] := by
    intro b hb
    have hmem : b ∈ before ++ a :: after := List.perm_middle.mem_iff.2 (List.mem_cons_of_mem a hb)
    exact h b hmem fun he => hne (he ▸ hb)
  have hrest := List.flatMap_eq_nil_iff.2 hempty
  rw [List.flatMap_append, List.append_eq_nil_iff] at hrest
  rw [List.flatMap_append, List.flatMap_cons, hrest.1, hrest.2, List.nil_append, List.append_nil]

namespace World

variable {w : World} {m : Nat} {f : FuncRef} {a b : BlockRef} {x y : Block} {i : Instr}

theorem blockSuccs_eq_foldl (w : World) (f : FuncRef) (x : Block) : w.blockSuccs f x =
    ((x.terminator?.map (·.targets)).getD []).foldl (FlowGraph.note (w.isBlockOf f)) [] := by
  cases h : x.terminator? <;> simp [blockSuccs, h, FlowGraph.foldl_note]

theorem noted_blockSuccs (w : World) (f : FuncRef) (x : Block) :
    FlowGraph.Noted (w.isBlockOf f) ((x.terminator?.map (·.targets)).getD []) (w.blockSuccs f x) := by
  have hnone : FlowGraph.Noted (w.isBlockOf f) [] ([] : List BlockRef) := ⟨by simp, .nil⟩
  rw [blockSuccs_eq_foldl]
  exact hnone.foldl _

theorem mem_edges_flowGraph {e : BlockRef × List BlockRef} : e ∈ (w.flowGraph m).edges ↔
    ∃ f ∈ w.funcRefs m, ∃ x, (e.1, x) ∈ w.blocksOf f ∧ e.2 = w.blockSuccs f x := by
  simp only [flowGraph, List.mem_flatMap, List.mem_map, Prod.exists]
  constructor
  · rintro ⟨f, hf, a, x, hx, rfl⟩
    exact ⟨f, hf, x, hx, rfl⟩
  · rintro ⟨f, hf, x, hx, he⟩
    exact ⟨f, hf, e.1, x, hx, by rw [← he]⟩

theorem succs_flowGraph (hf : f ∈ w.funcRefs m) (hx : (a, x) ∈ w.blocksOf f) :
    (w.flowGraph m).succs a = w.blockSuccs f x := by
  have he : (a, w.blockSuccs f x) ∈ (w.flowGraph m).edges :=
    mem_edges_flowGraph.2 ⟨f, hf, x, hx, rfl⟩
  simp [FlowGraph.succs, (lookup_eq_some_iff_mem (isFunctional_flowGraph w m)).2 he]

theorem preds_eq_foldl (w : World) (m : Nat) (b : BlockRef) : (w.flowGraph m).preds b =
    (w.flowGraph m).edges.foldl (fun table e => FlowGraph.write table e.1 e.2) (fun _ => []) b := by
  rw [FlowGraph.foldl_write_apply, List.nil_append, FlowGraph.preds]
  intro e he
  obtain ⟨f, -, x, -, hsuccs⟩ := mem_edges_flowGraph.1 he
  exact hsuccs ▸ (noted_blockSuccs w f x).nodup

theorem nodup_funcRefs (w : World) (m : Nat) : (w.funcRefs m).Nodup := by
  rw [funcRefs, List.Nodup, List.pairwise_map]
  exact List.nodup_range.imp fun hne he => hne (FuncRef.mk.inj he).2

theorem preds_eq_filter (hf : f ∈ w.funcRefs m) (hb : w.parent? b = some f) :
    (w.flowGraph m).preds b =
      ((w.blocksOf f).filter fun e => b ∈ w.blockSuccs f e.2).map Prod.fst := by
  have hother : ∀ g ∈ w.funcRefs m, g ≠ f →
      ((w.blocksOf g).map fun e => (e.1, w.blockSuccs g e.2)).filter (fun e => b ∈ e.2) = [] := by
    intro g _ hne
    rw [List.filter_eq_nil_iff]
    intro e he hmem
    obtain ⟨⟨a, x⟩, -, rfl⟩ := List.mem_map.1 he
    obtain ⟨_, _, _, hparent⟩ := mem_blockSuccs.1 (of_decide_eq_true hmem)
    rw [isBlockOf, beq_iff_eq, hb] at hparent
    exact hne (Option.some.inj hparent).symm
  rw [FlowGraph.preds, flowGraph, List.filter_flatMap,
    flatMap_eq_of_mem (nodup_funcRefs w m) hf hother, List.filter_map, List.map_map]
  rfl

/-- What the two tables say of the blocks of a function. They are inverse to each other, and follow the
targets of terminators and the order of blocks. What they list is a block that says that it belongs to
the function, and does, if the blocks of its module are in place. -/
structure EdgesMatch (w : World) (m : Nat) (f : FuncRef) : Prop where
  mem_succs_iff : ∀ a x b y, (a, x) ∈ w.blocksOf f → (b, y) ∈ w.blocksOf f →
    (b ∈ (w.flowGraph m).succs a ↔ ∃ i, x.terminator? = some i ∧ some b ∈ i.targets)
  mem_preds_iff : ∀ a x b y, (a, x) ∈ w.blocksOf f → (b, y) ∈ w.blocksOf f →
    (a ∈ (w.flowGraph m).preds b ↔ b ∈ (w.flowGraph m).succs a)
  nodup_succs : ∀ a x, (a, x) ∈ w.blocksOf f → ((w.flowGraph m).succs a).Nodup
  succs_ordered : ∀ a x i, (a, x) ∈ w.blocksOf f → x.terminator? = some i →
    ((w.flowGraph m).succs a).Pairwise fun b c => i.targets.idxOf (some b) < i.targets.idxOf (some c)
  succs_inside : ∀ a x b, (a, x) ∈ w.blocksOf f → b ∈ (w.flowGraph m).succs a →
    ∃ y, w.block? b = some y ∧ y.parent = some f ∧
      (w.KeepsBlocks b.func.module → (b, y) ∈ w.blocksOf f)
  nodup_preds : ∀ b y, (b, y) ∈ w.blocksOf f → ((w.flowGraph m).preds b).Nodup
  preds_ordered : ∀ b y, (b, y) ∈ w.blocksOf f →
    ((w.flowGraph m).preds b).Sublist ((w.blocksOf f).map Prod.fst)
  succs_filled : ∀ a x, (a, x) ∈ w.blocksOf f → (w.flowGraph m).succs a =
    ((x.terminator?.map (·.targets)).getD []).foldl (FlowGraph.note (w.isBlockOf f)) []
  preds_filled : (w.flowGraph m).preds =
    (w.flowGraph m).edges.foldl (fun table e => FlowGraph.write table e.1 e.2) fun _ => []

/-- Where the blocks of a module belong to the functions that hold them, whatever their terminators
name: blocks again and again, none at all, or those of other functions. -/
theorem edgesMatch_of_keepsBlocks (hm : w.KeepsBlocks m) (hf : f ∈ w.funcRefs m) :
    w.EdgesMatch m f := by
  have hparent {b y} (hb : (b, y) ∈ w.blocksOf f) : w.parent? b = some f := by
    rw [parent?, (mem_blocksOf.1 hb).2]
    exact keepsBlocks_iff.1 hm f hf _ hb
  exact {
    mem_succs_iff := by
      intro a x b y ha hb
      rw [succs_flowGraph hf ha, mem_blockSuccs]
      simp only [isBlockOf, hparent hb, BEq.rfl, and_true]
    mem_preds_iff := fun a _ b _ _ _ => (isFunctional_flowGraph w m).mem_preds_iff
    nodup_succs := by
      intro a x ha
      rw [succs_flowGraph hf ha]
      exact (noted_blockSuccs w f x).nodup
    succs_ordered := by
      intro a x i ha hi
      have hordered := (noted_blockSuccs w f x).ordered
      rw [hi] at hordered
      rwa [succs_flowGraph hf ha]
    succs_inside := by
      intro a x b ha hb
      rw [succs_flowGraph hf ha, mem_blockSuccs] at hb
      obtain ⟨i, _, _, hb⟩ := hb
      obtain ⟨b, y, he, hy, hp⟩ := exists_of_isBlockOf hb
      obtain rfl := Option.some.inj he
      refine ⟨y, hy, hp, fun hkeeps => mem_blocksOf.2 ⟨?_, hy⟩⟩
      rw [hkeeps b y rfl hy] at hp
      exact Option.some.inj hp
    nodup_preds := fun b _ _ => (isFunctional_flowGraph w m).nodup_preds b
    preds_ordered := by
      intro b y hb
      rw [preds_eq_filter hf (hparent hb)]
      exact List.filter_sublist.map Prod.fst
    succs_filled := fun a x ha => by rw [succs_flowGraph hf ha, blockSuccs_eq_foldl]
    preds_filled := funext fun b => preds_eq_foldl w m b }

def scattered : World where
  contexts := [{
    widthLimit := 64, traces := false, modulesMade := 2, funcsMade := 3
    types := ⟨1, 64, false, [.void, .fn ⟨1, 1⟩ [] false, .pointer 0]⟩ }]
  modules := [{
    context := 1, name := "m", serial := 1, symbols := [("f", .func 0), ("g", .func 1)]
    funcs := [{
      name := "f", type := ⟨1, 2⟩, retType := ⟨1, 1⟩, serial := 1, moduleSerial := 1
      refType := ⟨1, 3⟩
      blocks := [
        ⟨"entry", some ⟨0, 0⟩, [
          { op := .switch, type := ⟨1, 1⟩
            targets := [some ⟨⟨0, 0⟩, 1⟩, none, some ⟨⟨0, 1⟩, 0⟩, some ⟨⟨1, 0⟩, 0⟩, some ⟨⟨0, 0⟩, 1⟩,
              some ⟨⟨0, 0⟩, 0⟩] }]⟩,
        ⟨"next", some ⟨0, 0⟩, [{ op := .ret, type := ⟨1, 1⟩ }]⟩
        ].foldl .push .empty }, {
      name := "g", type := ⟨1, 2⟩, retType := ⟨1, 1⟩, serial := 2, moduleSerial := 1
      index := 1, refType := ⟨1, 3⟩
      blocks := BlockList.empty.push ⟨"other", some ⟨0, 1⟩, []⟩ }] }, {
    context := 1, name := "n", serial := 2, symbols := [("h", .func 0)]
    funcs := [{
      name := "h", type := ⟨1, 2⟩, retType := ⟨1, 1⟩, serial := 3, moduleSerial := 2
      refType := ⟨1, 3⟩
      blocks := BlockList.empty.push ⟨"outside", some ⟨0, 0⟩, []⟩ }] }]

theorem edgesMatch_scattered : scattered.KeepsBlocks 0 ∧ ⟨0, 0⟩ ∈ scattered.funcRefs 0 ∧
    scattered.EdgesMatch 0 ⟨0, 0⟩ ∧
    (scattered.flowGraph 0).succs ⟨⟨0, 0⟩, 0⟩ = [⟨⟨0, 0⟩, 1⟩, ⟨⟨1, 0⟩, 0⟩, ⟨⟨0, 0⟩, 0⟩] ∧
    (scattered.flowGraph 0).preds ⟨⟨0, 0⟩, 1⟩ = [⟨⟨0, 0⟩, 0⟩] := by
  have hm : scattered.KeepsBlocks 0 := keepsBlocks_iff.2 (by decide)
  have hf : ⟨0, 0⟩ ∈ scattered.funcRefs 0 := by decide
  exact ⟨hm, hf, edgesMatch_of_keepsBlocks hm hf, by decide, by decide⟩

theorem not_succs_inside_of_keepsBlocks : ¬ ∀ (w : World) (m : Nat) (f : FuncRef) (a : BlockRef)
    (x : Block) (b : BlockRef), w.KeepsBlocks m → f ∈ w.funcRefs m → (a, x) ∈ w.blocksOf f →
    b ∈ (w.flowGraph m).succs a → ∃ y, (b, y) ∈ w.blocksOf f := by
  intro h
  have hm : scattered.KeepsBlocks 0 := keepsBlocks_iff.2 (by decide)
  have hf : ⟨0, 0⟩ ∈ scattered.funcRefs 0 := by decide
  obtain ⟨x, hx⟩ : ∃ x, scattered.block? ⟨⟨0, 0⟩, 0⟩ = some x := ⟨_, rfl⟩
  obtain ⟨y, hy⟩ := h scattered 0 ⟨0, 0⟩ ⟨⟨0, 0⟩, 0⟩ x ⟨⟨1, 0⟩, 0⟩ hm hf (mem_blocksOf.2 ⟨rfl, hx⟩)
    (by decide)
  exact absurd (mem_blocksOf.1 hy).1 (by decide)

end World

end TypedIR
