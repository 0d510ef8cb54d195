import TypedIR.Proofs.Safety.Rules

/-! The phases of verification with their accesses. The blocks that stand in a module are there, and
so is every block that a pointer leads to, if it is not null. Only the phase of the phis follows
pointers without asking whether they are; the phase of the structure comes before it. -/

namespace TypedIR

namespace World

/-- Every pointer of an instruction that is not null leads to a block. The entries of a function's own
list are blocks that it owns, so none of them is null. -/
def PointersValid (w : World) (m : Nat) : Prop :=
  ∀ f ∈ w.funcRefs m, ∀ s ∈ w.sites f, ∀ b ∈ s.instr.targets ++ s.instr.incoming,
    w.NullOrBlock b

instance (w : World) (m : Nat) : Decidable (w.PointersValid m) :=
  inferInstanceAs (Decidable (∀ f ∈ w.funcRefs m, ∀ s ∈ w.sites f,
    ∀ b ∈ s.instr.targets ++ s.instr.incoming, w.NullOrBlock b))

end World

namespace Unguarded

open World (Site definition? redefinitions typeFault? instrTypes globalTypes)

def blockSuccs (w : World) (f : FuncRef) (b : Block) : Access (List BlockRef) :=
  if b.instrs.isEmpty then pure []
  else do
    let last ← back b.instrs
    if last.op.isTerminator then
      let own ← loop (fun t => return if ← isBlockOf w f t then t.toList else []) last.targets
      return own.eraseDups
    else return []

def flowGraph (w : World) (m : Nat) : Access (FlowGraph BlockRef) := do
  let edges ← loop (fun f => loop (fun e => return [(e.1, ← blockSuccs w f e.2)]) (w.blocksOf f))
    (w.funcRefs m)
  return ⟨edges⟩

def domTree (w : World) (g : FlowGraph BlockRef) (f : FuncRef) : Access (DomTree BlockRef) :=
  if (w.blocksOf f).isEmpty then pure .empty
  else do
    let entry ← read (w.blocksOf f) 0
    let order := g.reversePostOrder entry.1
    let preds ← loopAt (fun _ b => do
      let _ ← block w (some b)
      return [(g.preds b).map order.idxOf]) order
    return ⟨order, (ParentTable.start order.length).settle (preds.getD · [])⟩

def strangers (w : World) (f : FuncRef) (finding : Finding) (bs : List (Option BlockRef)) :
    Access (List Finding) :=
  loop (fun b => return if ← isBlockOf w f b then [] else [finding]) bs

def instrStructure (w : World) (f : FuncRef) (b : Block) (n : Nat) (i : Instr) :
    Access (List Finding) := do
  let targets ← strangers w f .foreignTarget i.targets
  let incoming ← strangers w f .foreignIncoming i.incoming
  return (if i.op = .phi ∧ (b.instrs.take n).any (·.op ≠ .phi) then [.misplacedPhi] else [])
    ++ (if i.op.isTerminator ∧ n + 1 ≠ b.instrs.length then [.misplacedTerminator] else [])
    ++ targets ++ incoming

def blockStructure (w : World) (f : FuncRef) (b : Block) : Access (List Violation) :=
  let fn := w.func f
  if b.instrs.isEmpty then pure [.atBlock fn b .emptyBlock]
  else do
    let found ← loopAt (fun n i => return (← instrStructure w f b n i).map (.atInstr fn b n))
      b.instrs
    let last ← back b.instrs
    return found
      ++ if last.op.isTerminator then [] else [.atBlock fn b (.missingTerminator last.op)]

def entryStructure (w : World) (g : FlowGraph BlockRef) (f : FuncRef) :
    Access (List Violation) := do
  let entry ← read (w.blocksOf f) 0
  let preds := g.preds entry.1
  if preds.isEmpty then return []
  else
    let first ← read preds 0
    let x ← block w (some first)
    return [.atBlock (w.func f) entry.2 (.entryHasPredecessors x.label)]

def funcStructure (w : World) (g : FlowGraph BlockRef) (f : FuncRef) : Access (List Violation) :=
  let fn := w.func f
  let linkage : List Violation :=
    (if fn.linkage = .imported ∧ !fn.isDeclaration then [.atFunc fn .importWithBody] else [])
      ++ (if fn.linkage = .internal ∧ fn.isDeclaration then [.atFunc fn .missingBody] else [])
  if fn.isDeclaration then pure linkage
  else do
    let blocks ← loop (fun e => blockStructure w f e.2) (w.blocksOf f)
    let entry ← entryStructure w g f
    return linkage ++ blocks ++ entry

def checkStructure (w : World) (m : Nat) (g : FlowGraph BlockRef) : Access (List Violation) :=
  loop (funcStructure w g) (w.funcRefs m)

def sites (w : World) (f : FuncRef) : Access (List Site) :=
  loop (fun e => loopAt (fun n i => return [⟨e.1, e.2, n, i⟩]) e.2.instrs) (w.blocksOf f)

def isDominated (d : DomTree BlockRef) (definition use : Site) (k : Nat) : Access Bool :=
  if use.instr.op = .phi then do
    let pred ← if k < use.instr.incoming.length then read use.instr.incoming k else pure none
    match pred with
    | none => return true
    | some p => return !d.contains p || d.dominates definition.ref p
  else if definition.ref = use.ref then return definition.index < use.index
  else return d.dominates definition.ref use.ref

def useFinding? (w : World) (m : Nat) (f : FuncRef) (d : DomTree BlockRef) (all : List Site)
    (use : Site) (k : Nat) (v : Value) : Access (Option Finding) := do
  let fn := w.func f
  match ← (checkOperand (w.contextOf m) (w.module m) fn v).run with
  | .error e => return some (.operand e)
  | .ok () =>
    if v.kind ≠ .result then return none
    else match definition? all v.id with
      | none => return some (.neverDefined (fn.tempText v.id))
      | some definition =>
        if !d.contains use.ref then return none
        else if ← isDominated d definition use k then return none
        else
          let x ← block w (some definition.ref)
          return some (.notDominated (fn.tempText v.id) x.label)

def funcDominance (w : World) (m : Nat) (g : FlowGraph BlockRef) (f : FuncRef) :
    Access (List Violation) := do
  let fn := w.func f
  let d ← domTree w g f
  let all ← sites w f
  let uses ← loop (fun use => loopAt (fun k v => do
    let finding ← useFinding? w m f d all use k v
    return finding.toList.map (.atInstr fn use.block use.index)) use.instr.operands) all
  return redefinitions fn [] all ++ uses

def checkDominance (w : World) (m : Nat) (g : FlowGraph BlockRef) : Access (List Violation) :=
  loop (funcDominance w m g) (w.funcRefs m)

def conflicts (i : Instr) (k : Nat) : Access Bool :=
  (List.range k).anyM fun j => do
    let before ← read i.incoming j
    let here ← read i.incoming k
    if before = here ∧ k < i.operands.length then
      let a ← read i.operands j
      let b ← read i.operands k
      return a ≠ b
    else return false

def incomingFinding? (w : World) (preds : List BlockRef) (b : Block) (i : Instr) (k : Nat)
    (incoming : Option BlockRef) : Access (Option Finding) := do
  if !(preds.map some).contains incoming then
    let x ← block w incoming
    return some (.strayIncoming x.label b.label)
  else if ← conflicts i k then
    let x ← block w incoming
    return some (.conflictingIncoming x.label)
  else return none

def phiFindings (w : World) (preds : List BlockRef) (b : Block) (i : Instr) :
    Access (List Finding) := do
  let missing ← loop (fun p => do
    if i.incoming.contains (some p) then return []
    else return [.missingIncoming (← block w (some p)).label]) preds
  let found ← loopAt (fun k t => return (← incomingFinding? w preds b i k t).toList) i.incoming
  return missing ++ found

def checkPhiEdges (w : World) (m : Nat) (g : FlowGraph BlockRef) : Access (List Violation) :=
  loop (fun f => loop (fun e => loop (fun n => do
    let i ← read e.2.instrs n
    return (← phiFindings w (g.preds e.1) e.2 i).map (.atInstr (w.func f) e.2 n))
      (List.range e.2.phis.length)) (w.blocksOf f)) (w.funcRefs m)

def funcTypes (w : World) (types : TypeRegistry) (f : FuncRef) : Access (List Violation) := do
  let fn := w.func f
  let temps ← loopAt (fun id t => do
    return (typeFault? types t.type).toList.map fun e => .atFunc fn (.tempType id e)) fn.temps
  let all ← sites w f
  return (typeFault? types fn.type).toList.map (fun e => .atFunc fn (.signatureType e)) ++ temps
    ++ all.flatMap fun s => (instrTypes types s.instr).map (.atInstr fn s.block s.index)

def checkOwnership (w : World) (m : Nat) : Access (List Violation) := do
  let types := (w.contextOf m).types
  let funcs ← loop (funcTypes w types) (w.funcRefs m)
  return (w.module m).globals.flatMap (globalTypes types) ++ funcs

def checkTyping (w : World) (m : Nat) : Access (List Violation) :=
  loop (fun f => do
    loop (fun s => do
      match ← (checkInstr w m f s.instr).run with
      | .ok () => return []
      | .error e => return [.atInstr (w.func f) s.block s.index (.illTyped e)]) (← sites w f))
    (w.funcRefs m)

def run (w : World) (m : Nat) (g : FlowGraph BlockRef) : Phase → Access (List Violation)
  | .shape => checkStructure w m g
  | .dominance => checkDominance w m g
  | .phi => checkPhiEdges w m g
  | .ownership => checkOwnership w m
  | .typing => checkTyping w m

section Findings

variable {w : World} {m : Nat} {f : FuncRef} {a b : BlockRef} {x : Block} {i : Instr}

theorem valid_of_mem (hp : w.PointersValid m) (hf : f ∈ w.funcRefs m) {e : BlockRef × Block}
    (he : e ∈ w.blocksOf f) {n : Nat} (hi : e.2.instrs[n]? = some i) :
    ∀ t ∈ i.targets ++ i.incoming, w.NullOrBlock t := by
  obtain ⟨hfunc, hblock⟩ := World.mem_blocksOf.1 he
  exact hp f hf ⟨e.1, e.2, n, i⟩ (World.mem_sites.2 ⟨hfunc, hblock, hi⟩)

theorem flatMap_toList {α : Type} {p : Option α → Bool} {ts : List (Option α)} :
    ts.flatMap (fun t => if p t then t.toList else []) = (ts.filter p).filterMap id := by
  induction ts with
  | nil => rfl
  | cons t ts ih =>
    rw [List.flatMap_cons, ih, List.filter_cons]
    cases p t with
    | false => rfl
    | true => cases t <;> rfl

theorem isEmpty_of_getLast? {α : Type} {xs : List α} {a : α} (h : xs.getLast? = some a) :
    xs.isEmpty = false := by
  cases xs with
  | nil => cases h
  | cons => rfl

theorem blockSuccs_eq (h : ∀ i ∈ x.instrs, ∀ t ∈ i.targets, w.NullOrBlock t) :
    blockSuccs w f x = .ok (w.blockSuccs f x) := by
  cases hl : x.instrs.getLast? with
  | none =>
    have hnil : x.instrs = [] := List.getLast?_eq_none_iff.1 hl
    rw [blockSuccs, World.blockSuccs, Block.terminator?, hnil]
    rfl
  | some last =>
    rw [blockSuccs, isEmpty_of_getLast? hl, if_neg Bool.false_ne_true,
      bind_of_eq_ok (back_of_getLast? hl), World.blockSuccs, Block.terminator?, hl]
    by_cases ht : last.op.isTerminator
    · have hown : loop (fun t => return if ← isBlockOf w f t then t.toList else []) last.targets =
          .ok (last.targets.flatMap fun t => if w.isBlockOf f t then t.toList else []) :=
        loop_eq fun t hmem =>
          bind_of_eq_ok (isBlockOf_eq (h last (List.mem_of_getLast? hl) t hmem))
      rw [if_pos ht, bind_of_eq_ok hown, flatMap_toList, Option.filter_some, if_pos ht]
      rfl
    · rw [if_neg ht, Option.filter_some, if_neg ht]
      rfl

theorem flowGraph_eq (hp : w.PointersValid m) : flowGraph w m = .ok (w.flowGraph m) := by
  have hedges : loop (fun f => loop (fun e => return [(e.1, ← blockSuccs w f e.2)]) (w.blocksOf f))
      (w.funcRefs m) = .ok (w.flowGraph m).edges := by
    refine loop_eq fun f hf => ?_
    rw [List.map_eq_flatMap]
    refine loop_eq fun e he => bind_of_eq_ok (blockSuccs_eq fun i hi t ht => ?_)
    obtain ⟨n, hn⟩ := List.mem_iff_getElem?.1 hi
    exact valid_of_mem hp hf he hn t (List.mem_append_left _ ht)
  exact bind_of_eq_ok hedges

theorem exists_of_mem_preds (h : a ∈ (w.flowGraph m).preds b) : ∃ x, w.block? a = some x := by
  obtain ⟨bs, he, -⟩ := FlowGraph.mem_preds.1 h
  obtain ⟨f, -, he⟩ := List.mem_flatMap.1 he
  obtain ⟨⟨a, x⟩, hx, he⟩ := List.mem_map.1 he
  obtain ⟨rfl, -⟩ := Prod.mk.inj he
  exact ⟨x, (World.mem_blocksOf.1 hx).2⟩

theorem exists_of_mem_order {entry : BlockRef} (he : w.block? entry = some x)
    (h : b ∈ (w.flowGraph m).reversePostOrder entry) : ∃ x, w.block? b = some x := by
  rcases (FlowGraph.isOrder_reversePostOrder (w.flowGraph m) entry).led b h with rfl | ⟨a, ha, -⟩
  · exact ⟨x, he⟩
  · obtain ⟨-, _, _, -, -, -, hb⟩ := World.mem_succs_flowGraph.1 ha
    obtain ⟨_, y, he, hy, -⟩ := World.exists_of_isBlockOf hb
    obtain rfl := Option.some.inj he
    exact ⟨y, hy⟩

theorem domTree_eq : domTree w (w.flowGraph m) f = .ok (w.domTree (w.flowGraph m) f) := by
  rw [domTree, World.domTree, World.entryRef?]
  cases hblocks : w.blocksOf f with
  | nil => rfl
  | cons e es =>
    have hentry : w.block? e.1 = some e.2 :=
      (World.mem_blocksOf.1 (hblocks ▸ List.mem_cons_self)).2
    let order := (w.flowGraph m).reversePostOrder e.1
    have hpreds : loopAt (fun _ b => do
          let _ ← block w (some b)
          return [((w.flowGraph m).preds b).map order.idxOf]) order =
        .ok (order.map fun b => ((w.flowGraph m).preds b).map order.idxOf) := by
      rw [List.map_eq_flatMap, ← findAt_eq_flatMap]
      refine loopAt_eq fun _ b hb => ?_
      obtain ⟨y, hy⟩ := exists_of_mem_order hentry (List.mem_of_getElem? hb)
      exact bind_of_eq_ok (block_of_block? hy)
    exact bind_of_eq_ok hpreds

theorem flatMap_ite_nil {α β : Type} {p : α → Prop} [DecidablePred p] {g : α → β} {xs : List α} :
    xs.flatMap (fun x => if p x then [] else [g x]) = (xs.filter fun x => ¬ p x).map g := by
  induction xs with
  | nil => rfl
  | cons x xs ih =>
    rw [List.flatMap_cons, ih, List.filter_cons]
    by_cases hx : p x <;> simp [hx]

theorem strangers_eq {finding : Finding} {bs : List (Option BlockRef)}
    (h : ∀ t ∈ bs, w.NullOrBlock t) :
    strangers w f finding bs = .ok ((bs.filter (!w.isBlockOf f ·)).map fun _ => finding) := by
  have hfilter : bs.flatMap (fun t => if w.isBlockOf f t then [] else [finding]) =
      (bs.filter (!w.isBlockOf f ·)).map fun _ => finding := by
    simpa using flatMap_ite_nil (p := (w.isBlockOf f ·)) (g := fun _ => finding)
  rw [← hfilter]
  exact loop_eq fun t ht => bind_of_eq_ok (isBlockOf_eq (h t ht))

theorem instrStructure_eq {n : Nat} (h : ∀ t ∈ i.targets ++ i.incoming, w.NullOrBlock t) :
    instrStructure w f x n i = .ok (w.instrStructure f x n i) := by
  rw [List.forall_mem_append] at h
  rw [instrStructure, bind_of_eq_ok (strangers_eq h.1), bind_of_eq_ok (strangers_eq h.2),
    World.instrStructure]
  rfl

theorem blockStructure_eq
    (h : ∀ (n : Nat) i, x.instrs[n]? = some i → ∀ t ∈ i.targets ++ i.incoming, w.NullOrBlock t) :
    blockStructure w f x = .ok (w.blockStructure f x) := by
  cases hl : x.instrs.getLast? with
  | none =>
    have hnil : x.instrs = [] := List.getLast?_eq_none_iff.1 hl
    rw [blockStructure, World.blockStructure, hnil]
    rfl
  | some last =>
    have hfound : loopAt (fun n i => do
          return (← instrStructure w f x n i).map (Violation.atInstr (w.func f) x n)) x.instrs =
        .ok (findAt x.instrs fun n i =>
          (w.instrStructure f x n i).map (Violation.atInstr (w.func f) x n)) :=
      loopAt_eq fun n i hi => bind_of_eq_ok (instrStructure_eq (h n i hi))
    rw [blockStructure, isEmpty_of_getLast? hl, if_neg Bool.false_ne_true, bind_of_eq_ok hfound,
      bind_of_eq_ok (back_of_getLast? hl), World.blockStructure, hl]
    rfl

theorem isDeclaration_eq : (w.func f).isDeclaration = (w.blocksOf f).isEmpty := by
  rw [World.blocksOf, List.isEmpty_map]
  rfl

theorem entryStructure_eq (h : (w.func f).isDeclaration = false) :
    entryStructure w (w.flowGraph m) f = .ok (w.entryStructure (w.flowGraph m) f) := by
  rw [entryStructure, World.entryStructure]
  cases hblocks : w.blocksOf f with
  | nil => simp [isDeclaration_eq, hblocks] at h
  | cons e es =>
    cases hpreds : (w.flowGraph m).preds e.1 with
    | nil => simp [read, hpreds, pure_eq_ok]
    | cons p ps =>
      obtain ⟨x, hx⟩ := exists_of_mem_preds (hpreds ▸ List.mem_cons_self)
      simp [read, hpreds, block_of_block? hx, World.label, hx]

theorem funcStructure_eq (hp : w.PointersValid m) (hf : f ∈ w.funcRefs m) :
    funcStructure w (w.flowGraph m) f = .ok (w.funcStructure (w.flowGraph m) f) := by
  rw [funcStructure, World.funcStructure]
  cases hd : (w.func f).isDeclaration with
  | true =>
    have hblocks : w.blocksOf f = [] := by simpa [isDeclaration_eq] using hd
    simp [World.entryStructure, hblocks]
  | false =>
    have hblocks : loop (fun e => blockStructure w f e.2) (w.blocksOf f) =
        .ok ((w.blocksOf f).flatMap fun e => w.blockStructure f e.2) :=
      loop_eq fun e he => blockStructure_eq fun n i hi => valid_of_mem hp hf he hi
    rw [if_neg Bool.false_ne_true, bind_of_eq_ok hblocks, bind_of_eq_ok (entryStructure_eq hd)]
    rfl

theorem checkStructure_eq (hp : w.PointersValid m) :
    checkStructure w m (w.flowGraph m) = .ok (w.checkStructure m) :=
  loop_eq fun _ hf => funcStructure_eq hp hf

theorem sites_eq : sites w f = .ok (w.sites f) :=
  loop_eq fun _ _ => loopAt_eq fun _ _ _ => rfl

theorem isDominated_eq {d : DomTree BlockRef} {definition use : Site} {k : Nat} :
    isDominated d definition use k = .ok (World.isDominated d definition use k) := by
  rw [isDominated, World.isDominated]
  by_cases hop : use.instr.op = .phi
  · rw [if_pos hop, if_pos hop]
    cases hk : use.instr.incoming[k]? with
    | none =>
      rw [if_neg (Nat.not_lt.2 (List.getElem?_eq_none_iff.1 hk))]
      rfl
    | some p =>
      rw [if_pos (List.getElem?_eq_some_iff.1 hk).1, read_of_getElem? hk]
      cases p <;> rfl
  · rw [if_neg hop, if_neg hop]
    split <;> rfl

theorem block_of_definition? {id : Nat} {s : Site} (h : definition? (w.sites f) id = some s) :
    block w (some s.ref) = .ok s.block :=
  block_of_block? (World.mem_sites.1 (List.mem_of_find?_eq_some h)).2.1

theorem useFinding?_eq {d : DomTree BlockRef} {use : Site} {k : Nat} {v : Value} :
    useFinding? w m f d (w.sites f) use k v = .ok (w.useFinding? m f d (w.sites f) use k v) := by
  rw [useFinding?, checkOperand_eq, World.useFinding?]
  cases TypedIR.checkOperand (w.contextOf m) (w.module m) (w.func f) v with
  | error e => rfl
  | ok u =>
    by_cases hk : v.kind = .result
    · cases hd : definition? (w.sites f) v.id with
      | none => simp [verdict, hk, pure_eq_ok]
      | some s =>
        cases d.contains use.ref with
        | false => simp [verdict, hk, pure_eq_ok]
        | true =>
          cases hdom : World.isDominated d s use k with
          | true => simp [verdict, hk, isDominated_eq, hdom, pure_eq_ok]
          | false => simp [verdict, hk, isDominated_eq, hdom, block_of_definition? hd, pure_eq_ok]
    · simp [verdict, hk, pure_eq_ok]

theorem funcDominance_eq : funcDominance w m (w.flowGraph m) f =
    .ok (w.funcDominance m (w.flowGraph m) f) := by
  let d := w.domTree (w.flowGraph m) f
  have huses : loop (fun use => loopAt (fun k v => do
        let finding ← useFinding? w m f d (w.sites f) use k v
        return finding.toList.map (Violation.atInstr (w.func f) use.block use.index))
          use.instr.operands) (w.sites f) =
      .ok ((w.sites f).flatMap fun use => findAt use.instr.operands fun k v =>
        (w.useFinding? m f d (w.sites f) use k v).toList.map
          (Violation.atInstr (w.func f) use.block use.index)) :=
    loop_eq fun _ _ => loopAt_eq fun _ _ _ => bind_of_eq_ok useFinding?_eq
  rw [funcDominance, bind_of_eq_ok domTree_eq, bind_of_eq_ok sites_eq, bind_of_eq_ok huses]
  rfl

theorem checkDominance_eq : checkDominance w m (w.flowGraph m) = .ok (w.checkDominance m) :=
  loop_eq fun _ _ => funcDominance_eq

theorem conflicts_eq {k : Nat} {t : Option BlockRef} (h : i.incoming[k]? = some t) :
    conflicts i k = .ok (decide (k < i.operands.length ∧ ∃ j ∈ List.range k,
      i.incoming[j]? = some t ∧ i.operands[j]? ≠ i.operands[k]?)) := by
  have hany : conflicts i k = .ok ((List.range k).any fun j => decide (k < i.operands.length ∧
      i.incoming[j]? = some t ∧ i.operands[j]? ≠ i.operands[k]?)) := by
    refine anyM_eq fun j hj => ?_
    have hjk : j < k := List.mem_range.1 hj
    have hlen : k < i.incoming.length := (List.getElem?_eq_some_iff.1 h).1
    have hbefore := List.getElem?_eq_getElem (Nat.lt_trans hjk hlen)
    rw [read_of_getElem? hbefore, read_of_getElem? h, pure_bind, pure_bind, hbefore]
    by_cases hk : k < i.operands.length
    · have ha := List.getElem?_eq_getElem (Nat.lt_trans hjk hk)
      have hb := List.getElem?_eq_getElem hk
      rw [read_of_getElem? ha, read_of_getElem? hb, ha, hb]
      by_cases hs : i.incoming[j] = t <;> simp [hs, hk, pure_eq_ok]
    · simp [hk, pure_eq_ok]
  rw [hany, List.any_eq]
  congr 1
  simp only [decide_eq_true_eq, decide_eq_decide]
  exact ⟨fun ⟨j, hj, hk, hc⟩ => ⟨hk, j, hj, hc⟩, fun ⟨hk, j, hj, hc⟩ => ⟨j, hj, hk, hc⟩⟩

theorem incomingFinding?_eq {preds : List BlockRef} {k : Nat} {c : BlockRef} {y : Block}
    (h : i.incoming[k]? = some (some c)) (hc : w.block? c = some y) :
    incomingFinding? w preds x i k (some c) = .ok (w.incomingFinding? preds x i k (some c)) := by
  have hlabel : w.label c = y.label := by rw [World.label, hc, Option.map_some, Option.getD_some]
  have hmem : (preds.map some).contains (some c) = decide (c ∈ preds) := by simp
  rw [incomingFinding?, World.incomingFinding?, bind_of_eq_ok (conflicts_eq h),
    bind_of_eq_ok (block_of_block? hc), bind_of_eq_ok (block_of_block? hc), hlabel, hmem]
  by_cases hp : c ∈ preds
  · rw [decide_eq_true hp, Bool.not_true, if_neg Bool.false_ne_true, if_neg (not_not_intro hp)]
    simp only [decide_eq_true_eq]
    split <;> rfl
  · rw [decide_eq_false hp, Bool.not_false, if_pos rfl, if_pos hp]
    rfl

theorem phiFindings_eq {preds : List BlockRef} (hp : ∀ p ∈ preds, ∃ y, w.block? p = some y)
    (h : ∀ t ∈ i.incoming, ∃ c y, t = some c ∧ w.block? c = some y) :
    phiFindings w preds x i = .ok (w.phiFindings preds x i) := by
  have hmissing : loop (fun p => do
        if i.incoming.contains (some p) then return []
        else return [Finding.missingIncoming (← block w (some p)).label]) preds =
      .ok ((preds.filter fun p => some p ∉ i.incoming).map fun p =>
        Finding.missingIncoming (w.label p)) := by
    rw [← flatMap_ite_nil]
    refine loop_eq fun p hmem => ?_
    obtain ⟨y, hy⟩ := hp p hmem
    rw [bind_of_eq_ok (block_of_block? hy), World.label, hy]
    simp only [List.contains_iff_mem]
    split <;> rfl
  have hfound : loopAt (fun k t => do
        return (← incomingFinding? w preds x i k t).toList) i.incoming =
      .ok (findAt i.incoming fun k t => (w.incomingFinding? preds x i k t).toList) := by
    refine loopAt_eq fun k t ht => ?_
    obtain ⟨c, y, rfl, hy⟩ := h t (List.mem_of_getElem? ht)
    exact bind_of_eq_ok (incomingFinding?_eq ht hy)
  rw [phiFindings, bind_of_eq_ok hmissing, bind_of_eq_ok hfound]
  rfl

theorem checkPhiEdges_eq (h : w.checkStructure m = []) :
    checkPhiEdges w m (w.flowGraph m) = .ok (w.checkPhiEdges m) := by
  refine loop_eq fun f hf => loop_eq fun e he => loop_range_eq fun n i hi => ?_
  have hshape := World.checkStructure_eq_nil_iff.1 h f hf
  have hinstr : e.2.instrs[n]? = some i := by
    obtain ⟨rest, hrest⟩ := List.takeWhile_prefix (l := e.2.instrs) (·.op = .phi)
    rw [Block.phis] at hi
    rw [← hrest, List.getElem?_append_left (List.getElem?_eq_some_iff.1 hi).1]
    exact hi
  rw [read_of_getElem? hinstr, pure_bind]
  refine bind_of_eq_ok (phiFindings_eq (fun p hp => exists_of_mem_preds hp) fun t ht => ?_)
  obtain ⟨c, y, hc, hy, -⟩ :=
    World.exists_of_isBlockOf (((hshape.blocks e.1 e.2 he).instrs n i hinstr).incoming t ht)
  exact ⟨c, y, hc, hy⟩

theorem funcTypes_eq {types : TypeRegistry} : funcTypes w types f = .ok (w.funcTypes types f) := by
  have htemps : loopAt (fun id t => do
        return (typeFault? types t.type).toList.map fun e =>
          Violation.atFunc (w.func f) (.tempType id e)) (w.func f).temps =
      .ok (findAt (w.func f).temps fun id t => (typeFault? types t.type).toList.map fun e =>
        Violation.atFunc (w.func f) (.tempType id e)) :=
    loopAt_eq fun _ _ _ => rfl
  rw [funcTypes, bind_of_eq_ok htemps, bind_of_eq_ok sites_eq]
  rfl

theorem checkOwnership_eq : checkOwnership w m = .ok (w.checkOwnership m) := by
  have hfuncs : loop (funcTypes w (w.contextOf m).types) (w.funcRefs m) =
      .ok ((w.funcRefs m).flatMap (w.funcTypes (w.contextOf m).types)) :=
    loop_eq fun _ _ => funcTypes_eq
  rw [checkOwnership, bind_of_eq_ok hfuncs]
  rfl

theorem checkTyping_eq (hp : w.PointersValid m) (hc : (w.contextOf m).types.Admitted) :
    checkTyping w m = .ok (w.checkTyping m) := by
  refine loop_eq fun f hf => ?_
  rw [bind_of_eq_ok sites_eq]
  refine loop_eq fun s hs => ?_
  rw [checkInstr_eq hc (hp f hf s hs)]
  cases w.checkInstr m f s.instr <;> rfl

end Findings

end Unguarded

end TypedIR
