import Mathlib
import TypedIR.Proofs.Soundness.Placement
import TypedIR.Proofs.Verify.Silence

namespace TypedIR

/-- The same blocks in another order, with the same entry in front. -/
structure BlockList.Rearranges (bs bs' : BlockList) : Prop where
  entry : bs'.entries.head? = bs.entries.head?
  entries : bs'.entries.Perm bs.entries

namespace BlockList.Rearranges

variable {bs bs' : BlockList}

theorem refl (bs : BlockList) : bs.Rearranges bs := ⟨rfl, .refl _⟩

theorem symm (h : bs.Rearranges bs') : bs'.Rearranges bs := ⟨h.entry.symm, h.entries.symm⟩

theorem get? (h : bs.Rearranges bs') (id : Nat) : bs'.get? id = bs.get? id := by
  apply Option.ext
  intro b
  rw [BlockList.get?_eq_some_iff, BlockList.get?_eq_some_iff, h.entries.mem_iff]

theorem isEmpty (h : bs.Rearranges bs') : bs'.isEmpty = bs.isEmpty := by
  rw [BlockList.isEmpty, BlockList.isEmpty, Bool.eq_iff_iff, List.isEmpty_iff, List.isEmpty_iff,
    ← List.head?_eq_none_iff, h.entry, List.head?_eq_none_iff]

end BlockList.Rearranges

def Func.withBlocks (bs : BlockList) (f : Func) : Func := { f with blocks := bs }

def Func.bodiless (f : Func) : Func := f.withBlocks .empty

theorem Func.bodiless_withBlocks (bs : BlockList) (f : Func) :
    (f.withBlocks bs).bodiless = f.bodiless := rfl

def Module.bodiless (m : Module) : Module := { m with funcs := m.funcs.map Func.bodiless }

section Bodiless

variable {c : Context} {m : Module} {f : Func}

@[simp] theorem Module.getElem?_funcs_bodiless (m : Module) (i : Nat) :
    m.bodiless.funcs[i]? = m.funcs[i]?.map Func.bodiless := by
  simp [bodiless]

theorem Module.symbolName?_bodiless (m : Module) (v : Value) :
    m.bodiless.symbolName? v = m.symbolName? v := by
  have hf : (m.bodiless.funcs[v.id]?.filter (·.refType = v.type)).map (·.name) =
      (m.funcs[v.id]?.filter (·.refType = v.type)).map (·.name) := by
    rw [getElem?_funcs_bodiless]
    cases m.funcs[v.id]? with
    | none => rfl
    | some f => by_cases h : f.refType = v.type <;> simp [Func.bodiless, Func.withBlocks, Option.filter, h]
  rw [symbolName?, hf]
  rfl

theorem checkOperand_bodiless (v : Value) :
    checkOperand c m.bodiless f.bodiless v = checkOperand c m f v := by
  rw [checkOperand, checkOperand, Module.symbolName?_bodiless]
  rfl

theorem Instr.checkCallee_bodiless (types : TypeRegistry) (i : Instr) (v : Value) :
    i.checkCallee types m.bodiless v = i.checkCallee types m v := by
  rw [checkCallee, checkCallee, Module.getElem?_funcs_bodiless]
  cases m.funcs[v.id]? <;> rfl

theorem Instr.checkRule_bodiless (i : Instr) :
    i.checkRule c m.bodiless f.bodiless = i.checkRule c m f := by
  have hcall : i.checkCall c.types m.bodiless = i.checkCall c.types m := by
    simp only [checkCall, checkCallee_bodiless]
  rw [checkRule, hcall]
  rfl

end Bodiless

namespace World

/-- Worlds with the same blocks, in an order of its own for every function. -/
structure Rearranges (w w' : World) : Prop where
  contexts : w'.contexts = w.contexts
  module : ∀ m, (w'.module m).bodiless = (w.module m).bodiless
  blocks : ∀ f, (w.func f).blocks.Rearranges (w'.func f).blocks

namespace Rearranges

variable {w w' : World} {m : Nat} {f : FuncRef} {a b : BlockRef} {x : Block}

theorem symm (h : w.Rearranges w') : w'.Rearranges w where
  contexts := h.contexts.symm
  module k := (h.module k).symm
  blocks g := (h.blocks g).symm

variable (h : w.Rearranges w')
include h

theorem module_congr {α : Type} (read : Module → α) (hr : ∀ k, read k.bodiless = read k) :
    read (w'.module m) = read (w.module m) := by
  rw [← hr, h.module, hr]

theorem contextOf : w'.contextOf m = w.contextOf m := by
  rw [World.contextOf, World.contextOf, h.module_congr (·.context) fun _ => rfl,
    context_congr h.contexts]

theorem func : (w'.func f).bodiless = (w.func f).bodiless := by
  have hf := congrArg (fun k => k.funcs[f.index]?) (h.module f.module)
  simp only [Module.getElem?_funcs_bodiless] at hf
  have hget (o : Option Func) : (o.getD default).bodiless = (o.map Func.bodiless).getD default := by
    cases o <;> rfl
  rw [World.func, World.func, hget, hget]
  exact congrArg (·.getD default) hf

theorem func_congr {α : Type} (read : Func → α) (hr : ∀ fn, read fn.bodiless = read fn) :
    read (w'.func f) = read (w.func f) := by
  rw [← hr, h.func, hr]

theorem funcRefs : w'.funcRefs m = w.funcRefs m := by
  have hlen : (w'.module m).funcs.length = (w.module m).funcs.length :=
    h.module_congr (·.funcs.length) fun _ => List.length_map _
  rw [World.funcRefs, World.funcRefs, hlen]

theorem block? : w'.block? b = w.block? b := (h.blocks b.func).get? b.id

theorem isBlockOf : w'.isBlockOf f = w.isBlockOf f := by
  funext t
  cases t with
  | none => rfl
  | some t => rw [World.isBlockOf, World.isBlockOf, parent?, parent?, h.block?]

theorem mem_blocksOf : (b, x) ∈ w'.blocksOf f ↔ (b, x) ∈ w.blocksOf f := by
  rw [World.mem_blocksOf, World.mem_blocksOf, h.block?]

theorem entryRef? : w'.entryRef? f = w.entryRef? f := by
  simp only [World.entryRef?, blocksOf, List.head?_map, (h.blocks f).entry]

theorem isDeclaration : (w'.func f).isDeclaration = (w.func f).isDeclaration := (h.blocks f).isEmpty

theorem sites : (w'.sites f).Perm (w.sites f) :=
  ((h.blocks f).entries.map _).flatMap_right _

theorem mem_succs : b ∈ (w'.flowGraph m).succs a ↔ b ∈ (w.flowGraph m).succs a := by
  rw [mem_succs_flowGraph, mem_succs_flowGraph, h.funcRefs, h.block?, h.isBlockOf]

theorem mem_preds : a ∈ (w'.flowGraph m).preds b ↔ a ∈ (w.flowGraph m).preds b := by
  rw [(isFunctional_flowGraph w' m).mem_preds_iff, (isFunctional_flowGraph w m).mem_preds_iff,
    h.mem_succs]

theorem flowPath {p : List BlockRef} (hp : w.FlowPath m f b p) : w'.FlowPath m f b p := by
  obtain ⟨entry, he, hp⟩ := hp
  refine ⟨entry, h.entryRef?.trans he, ?_⟩
  induction hp with
  | refl => exact .refl
  | step _ hc ih => exact ih.step (h.mem_succs.2 hc)

theorem flowPath_iff {p : List BlockRef} : w'.FlowPath m f b p ↔ w.FlowPath m f b p :=
  ⟨h.symm.flowPath, h.flowPath⟩

theorem contains_domTree : (w'.domTree (w'.flowGraph m) f).contains b =
    (w.domTree (w.flowGraph m) f).contains b := by
  rw [Bool.eq_iff_iff, contains_domTree_iff, contains_domTree_iff]
  simp only [h.flowPath_iff]

theorem dominates_domTree : (w'.domTree (w'.flowGraph m) f).dominates a b =
    (w.domTree (w.flowGraph m) f).dominates a b := by
  rw [Bool.eq_iff_iff, dominates_domTree_iff, dominates_domTree_iff]
  simp only [h.flowPath_iff]

theorem isDominated {s use : Site} {k : Nat} :
    isDominated (w'.domTree (w'.flowGraph m) f) s use k =
      isDominated (w.domTree (w.flowGraph m) f) s use k := by
  simp only [World.isDominated, h.contains_domTree, h.dominates_domTree]

theorem instrShape {n : Nat} {i : Instr} (hi : w.InstrShape f x n i) : w'.InstrShape f x n i where
  phi := hi.phi
  terminator := hi.terminator
  targets := by rw [h.isBlockOf]; exact hi.targets
  incoming := by rw [h.isBlockOf]; exact hi.incoming

theorem funcShape (hf : w.FuncShape (w.flowGraph m) f) : w'.FuncShape (w'.flowGraph m) f := by
  have hlink : (w'.func f).linkage = (w.func f).linkage :=
    h.func_congr (·.linkage) fun _ => rfl
  constructor
  · rw [hlink, h.isDeclaration]
    exact hf.imported
  · rw [hlink, h.isDeclaration]
    exact hf.internal
  · intro b x hx
    obtain ⟨hterm, hinstrs⟩ := hf.blocks b x (h.mem_blocksOf.1 hx)
    exact ⟨hterm, fun n i hi => h.instrShape (hinstrs n i hi)⟩
  · intro b hb
    have hnone := hf.entry b (h.entryRef?.symm.trans hb)
    rw [List.eq_nil_iff_forall_not_mem] at hnone ⊢
    exact fun a ha => hnone a (h.mem_preds.1 ha)

theorem nodup_results (hn : (results (w.sites f)).Nodup) : (results (w'.sites f)).Nodup :=
  (h.sites.filterMap _).nodup_iff.2 hn

theorem definition? (hn : (results (w.sites f)).Nodup) (id : Nat) :
    definition? (w'.sites f) id = definition? (w.sites f) id := by
  apply Option.ext
  intro s
  rw [definition?_eq_some_iff (h.nodup_results hn), definition?_eq_some_iff hn, h.sites.mem_iff]

theorem checkOperand (v : Value) :
    checkOperand (w'.contextOf m) (w'.module m) (w'.func f) v =
      checkOperand (w.contextOf m) (w.module m) (w.func f) v := by
  rw [← checkOperand_bodiless, h.contextOf, h.module, h.func, checkOperand_bodiless]

theorem funcDominance (hf : w.FuncDominance m f) : w'.FuncDominance m f where
  nodup := h.nodup_results hf.nodup
  uses := by
    intro use hu k v hv
    obtain ⟨ho, hd⟩ := hf.uses use (h.sites.mem_iff.1 hu) k v hv
    refine ⟨(h.checkOperand v).trans ho, fun hk => ?_⟩
    obtain ⟨s, hs, hdom⟩ := hd hk
    refine ⟨s, (h.definition? hf.nodup v.id).trans hs, ?_⟩
    rw [h.contains_domTree, h.isDominated]
    exact hdom

theorem phiEdges {i : Instr} (hi : PhiEdges ((w.flowGraph m).preds b) i) :
    PhiEdges ((w'.flowGraph m).preds b) i where
  covered p hp := hi.covered p (h.mem_preds.1 hp)
  preds t ht := by
    obtain ⟨p, hp, rfl⟩ := hi.preds t ht
    exact ⟨p, h.mem_preds.2 hp, rfl⟩
  agree := hi.agree

theorem funcTypes {types : TypeRegistry} (hf : w.FuncTypes types f) : w'.FuncTypes types f where
  signature := by
    rw [h.func_congr (·.type) fun _ => rfl]
    exact hf.signature
  temps := by
    rw [h.func_congr (·.temps) fun _ => rfl]
    exact hf.temps
  instrs s hs := hf.instrs s (h.sites.mem_iff.1 hs)

theorem checkInstr (i : Instr) : w'.checkInstr m f i = w.checkInstr m f i := by
  have hname : (w'.func f).name = (w.func f).name := h.func_congr (·.name) fun _ => rfl
  have hrule : i.checkRule (w'.contextOf m) (w'.module m) (w'.func f) =
      i.checkRule (w.contextOf m) (w.module m) (w.func f) := by
    rw [← Instr.checkRule_bodiless, h.contextOf, h.module, h.func, Instr.checkRule_bodiless]
  rw [World.checkInstr, World.checkInstr, hname, h.isBlockOf, hrule]

theorem verified (hv : w.Verified m) : w'.Verified m := by
  constructor
  · rw [h.contextOf]
    exact hv.alive
  · rw [h.funcRefs]
    exact fun f hf => h.funcShape (hv.shape f hf)
  · rw [h.funcRefs]
    exact fun f hf => h.funcDominance (hv.dominance f hf)
  · rw [h.funcRefs]
    exact fun f hf b x hx i hi => h.phiEdges (hv.phis f hf b x (h.mem_blocksOf.1 hx) i hi)
  · rw [h.module_congr (·.globals) fun _ => rfl, h.contextOf]
    exact hv.globals
  · rw [h.funcRefs, h.contextOf]
    exact fun f hf => h.funcTypes (hv.types f hf)
  · rw [h.funcRefs]
    exact fun f hf s hs => (h.checkInstr s.instr).trans (hv.typing f hf s (h.sites.mem_iff.1 hs))

end Rearranges

variable {w : World} {f : FuncRef} {bs : BlockList}

theorem rearranges_withBlocks (h : (w.func f).blocks.Rearranges bs) :
    w.Rearranges (w.modifyFunc f (.withBlocks bs)) where
  contexts := rfl
  module m := by
    rw [module_modifyFunc]
    split
    · have hmap (fs : List Func) :
          (fs.modify f.index (.withBlocks bs)).map Func.bodiless = fs.map Func.bodiless :=
        map_modify (Func.bodiless_withBlocks bs)
      simp only [Module.bodiless, hmap]
    · rfl
  blocks g := by
    rw [func, func] at *
    rw [func?_modifyFunc]
    by_cases hg : g = f
    · subst hg
      cases hf : w.func? g with
      | none => simpa [hf] using BlockList.Rearranges.refl _
      | some fn => simpa [hf, Func.withBlocks] using h
    · rw [if_neg hg]
      exact .refl _

/-- A function may have its blocks in any order that begins with its entry: the module that it stands
in, and every other one, is verified with the one order just when it is with the other. -/
theorem verify_rearranged (m : Nat) (h : (w.func f).blocks.Rearranges bs) :
    (∃ c, (w.modifyFunc f (.withBlocks bs)).verify m = .ok c) ↔ ∃ c, w.verify m = .ok c := by
  have hr := rearranges_withBlocks h
  have hiff (w : World) : (∃ c, w.verify m = .ok c) ↔ w.Verified m := by simp [verify_eq_ok_iff]
  rw [hiff, hiff]
  exact ⟨hr.symm.verified, hr.verified⟩

def diamond : World where
  contexts := [{
    widthLimit := 64, traces := false, modulesMade := 1, funcsMade := 1
    types := ⟨1, 64, false, [.int 32, .int 1, .fn ⟨1, 1⟩ [⟨1, 2⟩] false, .pointer 0, .void]⟩ }]
  modules := [{
    context := 1, name := "m", serial := 1, symbols := [("f", .func 0)]
    funcs := [{
      name := "f", type := ⟨1, 3⟩, retType := ⟨1, 1⟩, params := [⟨⟨1, 2⟩, 0⟩], serial := 1
      moduleSerial := 1, refType := ⟨1, 4⟩
      temps := [⟨⟨1, 2⟩, "c"⟩, ⟨⟨1, 1⟩, "x"⟩, ⟨⟨1, 1⟩, "y"⟩, ⟨⟨1, 1⟩, "z"⟩]
      blocks := [
        ⟨"entry", some ⟨0, 0⟩, [
          { op := .condbr, type := ⟨1, 5⟩, operands := [.param ⟨1, 2⟩ 0 1]
            targets := [some ⟨⟨0, 0⟩, 1⟩, some ⟨⟨0, 0⟩, 2⟩] }]⟩,
        ⟨"left", some ⟨0, 0⟩, [
          { op := .zext, type := ⟨1, 1⟩, result := some 1, operands := [.param ⟨1, 2⟩ 0 1] },
          { op := .br, type := ⟨1, 5⟩, targets := [some ⟨⟨0, 0⟩, 3⟩] }]⟩,
        ⟨"right", some ⟨0, 0⟩, [
          { op := .sext, type := ⟨1, 1⟩, result := some 2, operands := [.param ⟨1, 2⟩ 0 1] },
          { op := .br, type := ⟨1, 5⟩, targets := [some ⟨⟨0, 0⟩, 3⟩] }]⟩,
        ⟨"join", some ⟨0, 0⟩, [
          { op := .phi, type := ⟨1, 1⟩, result := some 3
            operands := [.result ⟨1, 1⟩ 1 1, .result ⟨1, 1⟩ 2 1]
            incoming := [some ⟨⟨0, 0⟩, 1⟩, some ⟨⟨0, 0⟩, 2⟩] },
          { op := .ret, type := ⟨1, 5⟩, operands := [.result ⟨1, 1⟩ 3 1] }]⟩
        ].foldl .push .empty }] }]

def lastFirst : BlockList where
  entries := match (diamond.func ⟨0, 0⟩).blocks.entries with
    | entry :: others => entry :: others.reverse
    | [] => []
  numbered := by decide

theorem verify_rearranged_diamond : (diamond.func ⟨0, 0⟩).blocks.Rearranges lastFirst ∧
    (lastFirst.entries.map (·.2.label) = ["entry", "join", "right", "left"]) ∧
    ∃ c, (diamond.modifyFunc ⟨0, 0⟩ (.withBlocks lastFirst)).verify 0 = .ok c := by
  have h : (diamond.func ⟨0, 0⟩).blocks.Rearranges lastFirst := ⟨by decide, by decide⟩
  have hv : diamond.verify 0 = .ok (diamond.certificate 0) :=
    verify_eq_ok_iff.2 ⟨violations_eq_nil_iff.1 (by cbv), rfl⟩
  exact ⟨h, by decide, (verify_rearranged 0 h).2 ⟨_, hv⟩⟩

end World

end TypedIR
