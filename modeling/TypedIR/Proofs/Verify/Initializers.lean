import Mathlib
import TypedIR.Proofs.Constant.Literal
import TypedIR.Proofs.Declaration.Symbols

namespace TypedIR

namespace World

variable {w : World} {m i : Nat} {g : Global} {t : TypeRef} {v : Value} {certificate : Certificate}

/-- A value of the type of its global, written as the literal of a constant or as the address of a
symbol. -/
structure Starts (w : World) (m : Nat) (t : TypeRef) (v : Value) : Prop where
  type : v.type = t
  written : v.kind = .const ∧ (w.assemblyEnv m).value v ≠ "<invalid constant>" ∨
    ∃ name, (w.module m).symbolName? v = some name ∧ (w.assemblyEnv m).value v = "@" ++ name

theorem starts_iff_mayInit : w.Starts m t v ↔ (w.module m).MayInit (w.contextOf m) t v := by
  have hconst (hk : v.kind = .const) : (w.assemblyEnv m).value v = "<invalid constant>" ↔
      (w.contextOf m).lookupConstant v = none := by
    simp only [Assembly.Env.value, hk]
    exact ConstantPool.literal_eq_invalid_iff
  constructor
  · rintro ⟨ht, ⟨hk, hw⟩ | ⟨name, hs, -⟩⟩
    · exact ⟨ht, .inl ⟨hk, Option.isSome_iff_ne_none.2 (mt (hconst hk).2 hw)⟩⟩
    · exact ⟨ht, .inr (Option.isSome_iff_exists.2 ⟨name, hs⟩)⟩
  · rintro ⟨ht, ⟨hk, hl⟩ | hs⟩
    · exact ⟨ht, .inl ⟨hk, mt (hconst hk).1 (Option.isSome_iff_ne_none.1 hl)⟩⟩
    · obtain ⟨name, hname⟩ := Option.isSome_iff_exists.1 hs
      have hk := (Module.symbolName?_isSome_iff.1 hs).1
      have hw : (w.assemblyEnv m).value v = "@" ++ ((w.module m).symbolName? v).getD "<unknown>" := by
        simp only [Assembly.Env.value, hk]
        rfl
      exact ⟨ht, .inr ⟨name, hname, by rw [hw, hname, Option.getD_some]⟩⟩

/-- The world with an initial value written over. -/
def reinit (w : World) (m i : Nat) (v : Value) : World := w.modifyGlobal m i ({ · with init := some v })

section Reinit

variable (w : World) (m i : Nat) (v : Value)

theorem module_reinit : (w.reinit m i v).module m = { w.module m with
    globals := (w.module m).globals.modify i ({ · with init := some v }) } := by
  rw [reinit, module_modifyGlobal, if_pos rfl]

theorem func_reinit : (w.reinit m i v).func = w.func :=
  funext fun f => by rw [func, func, reinit, func?_modifyGlobal]

theorem contextOf_reinit : (w.reinit m i v).contextOf m = w.contextOf m := by
  rw [contextOf, module_reinit, reinit, modifyGlobal, context_setModule, contextOf]

theorem blocksOf_reinit : (w.reinit m i v).blocksOf = w.blocksOf :=
  funext fun f => by rw [blocksOf, blocksOf, func_reinit]

theorem sites_reinit : (w.reinit m i v).sites = w.sites :=
  funext fun f => by rw [sites, sites, blocksOf_reinit]

theorem funcRefs_reinit : (w.reinit m i v).funcRefs m = w.funcRefs m := by
  rw [funcRefs, funcRefs, module_reinit]

theorem symbolName?_reinit (u : Value) :
    ((w.reinit m i v).module m).symbolName? u = (w.module m).symbolName? u := by
  have hget : (((w.module m).globals.modify i ({ · with init := some v }))[u.id]?.filter
      (·.refType = u.type)).map (·.name) =
      ((w.module m).globals[u.id]?.filter (·.refType = u.type)).map (·.name) := by
    rw [List.getElem?_modify]
    cases (w.module m).globals[u.id]? with
    | none => rfl
    | some g => by_cases h : g.refType = u.type <;> by_cases hi : i = u.id <;> simp [Option.filter, h, hi]
  rw [module_reinit, Module.symbolName?, Module.symbolName?]
  simp only [hget]

theorem starts_reinit_iff {u : Value} : (w.reinit m i v).Starts m t u ↔ w.Starts m t u := by
  have hknown : ((w.reinit m i v).module m).MayInit (w.contextOf m) t u ↔
      (w.module m).MayInit (w.contextOf m) t u := by
    constructor <;> rintro ⟨ht, hk⟩ <;> exact ⟨ht, by simpa only [symbolName?_reinit] using hk⟩
  rw [starts_iff_mayInit, starts_iff_mayInit, contextOf_reinit, hknown]

variable {w m i v} in
theorem reinit_self (hi : (w.module m).globals[i]? = some g) (hv : g.init = some v) :
    w.reinit m i v = w := by
  have hglobals : (w.module m).globals.modify i ({ · with init := some v }) = (w.module m).globals := by
    refine List.ext_getElem? fun k => ?_
    rw [List.getElem?_modify]
    split
    · next hk => rw [← hk, hi, Option.map_eq_map, Option.map_some, ← hv]
    · rw [Option.map_eq_map, Option.map_id_fun', id]
  have hmodules : w.modules.set m (w.module m) = w.modules := by
    by_cases hm : m < w.modules.length
    · rw [module, List.getD_eq_getElem _ _ hm, List.set_getElem_self]
    · exact List.set_eq_of_length_le (Nat.le_of_not_lt hm)
  rw [reinit, modifyGlobal, hglobals, setModule, hmodules]

theorem run_reinit (p : Phase) (hp : p ≠ .ownership) : p.run (w.reinit m i v) m = p.run w m := by
  have hfunc := w.func_reinit m i v
  have hcontext := w.contextOf_reinit m i v
  have hrefs := w.funcRefs_reinit m i v
  have hblocks := w.blocksOf_reinit m i v
  have hsites := w.sites_reinit m i v
  have hblock : (w.reinit m i v).block? = w.block? := funext fun b => by rw [block?, block?, hfunc]
  have hparent : (w.reinit m i v).parent? = w.parent? := funext fun b => by rw [parent?, parent?, hblock]
  have hlabel : (w.reinit m i v).label = w.label := funext fun b => by rw [label, label, hblock]
  have hblockOf : (w.reinit m i v).isBlockOf = w.isBlockOf :=
    funext fun f => funext fun b => by cases b <;> simp only [isBlockOf, hparent]
  have hgraph : (w.reinit m i v).flowGraph m = w.flowGraph m := by
    simp only [flowGraph, hrefs, hblocks, blockSuccs, hblockOf]
  have htree : (w.reinit m i v).domTree = w.domTree := by
    funext g f
    simp only [domTree, entryRef?, hblocks]
  cases p with
  | ownership => exact absurd rfl hp
  | shape =>
    have hfn : (w.reinit m i v).funcStructure = w.funcStructure := by
      funext g f
      simp only [funcStructure, blockStructure, entryStructure, instrStructure, hfunc, hblocks, hlabel,
        hblockOf]
    rw [Phase.run, Phase.run, checkStructure, checkStructure, hrefs, hgraph, hfn]
  | dominance =>
    have hoperand (fn : Func) (u : Value) :
        checkOperand (w.contextOf m) ((w.reinit m i v).module m) fn u =
          checkOperand (w.contextOf m) (w.module m) fn u := by
      rw [checkOperand, checkOperand, symbolName?_reinit, module_reinit]
    have hfn : (w.reinit m i v).funcDominance m = w.funcDominance m := by
      funext g f
      simp only [funcDominance, useFinding?, hfunc, htree, hsites, hcontext, hoperand]
    rw [Phase.run, Phase.run, checkDominance, checkDominance, hrefs, hgraph, hfn]
  | phi =>
    simp only [Phase.run, checkPhiEdges, phiFindings, incomingFinding?, hrefs, hgraph, hfunc, hblocks,
      hlabel]
  | typing =>
    have hrule (fn : Func) (x : Instr) : x.checkRule (w.contextOf m) ((w.reinit m i v).module m) fn =
        x.checkRule (w.contextOf m) (w.module m) fn := by
      rw [module_reinit]
      rfl
    simp only [Phase.run, checkTyping, checkInstr, hrefs, hfunc, hsites, hcontext, hblockOf, hrule]

variable {w m i v}

theorem checkOwnership_reinit (h : w.checkOwnership m = []) (hv : (w.contextOf m).types.owns v.type) :
    (w.reinit m i v).checkOwnership m = [] := by
  obtain ⟨hglobals, hfuncs⟩ := checkOwnership_eq_nil_iff.1 h
  have hfn : (w.reinit m i v).funcTypes = w.funcTypes := by
    funext types f
    simp only [funcTypes, func_reinit, sites_reinit]
  rw [checkOwnership_eq_nil_iff, contextOf_reinit, funcRefs_reinit]
  refine ⟨fun x hx => ?_, fun f hf => ?_⟩
  · obtain ⟨k, hk⟩ := List.mem_iff_getElem?.1 hx
    rw [module_reinit, List.getElem?_modify, Option.map_eq_map] at hk
    obtain ⟨g, hg, rfl⟩ := Option.map_eq_some_iff.1 hk
    obtain ⟨htype, hinit⟩ := hglobals g (List.mem_of_getElem? hg)
    split
    · exact ⟨htype, fun u hu => Option.some.inj hu ▸ hv⟩
    · exact ⟨htype, hinit⟩
  · rw [← funcTypes_eq_nil_iff, hfn, funcTypes_eq_nil_iff]
    exact hfuncs f hf

theorem Verified.reinit_iff (h : w.Verified m) (hi : i < (w.module m).globals.length) :
    (w.reinit m i v).Verified m ↔ (w.contextOf m).types.owns v.type := by
  constructor
  · intro hv
    have hnew : ((w.reinit m i v).module m).globals[i]? =
        some { (w.module m).globals[i] with init := some v } := by
      simp [module_reinit, hi]
    rw [← contextOf_reinit w m i v]
    exact (hv.globals _ (List.mem_of_getElem? hnew)).init v rfl
  · intro ho
    obtain ⟨hl, hrun⟩ := violations_eq_nil_iff_run.1 (violations_eq_nil_iff.2 h)
    refine violations_eq_nil_iff.1 (violations_eq_nil_iff_run.2 ⟨by rwa [contextOf_reinit], fun p => ?_⟩)
    by_cases hp : p = .ownership
    · subst hp
      exact checkOwnership_reinit (hrun .ownership) ho
    · rw [run_reinit w m i v p hp]
      exact hrun p

end Reinit

/-- The types that the initial value of a global of a verified module has to do with are of its context.
Whatever is written over it verifies just when its type is of the context too. It is then a constant or
an address, of the type of the global, just when declaring the global with it would pass; and what is
there is such a value where globals are only given such values. -/
theorem starts_iff_of_verify (h : w.verify m = .ok certificate) (hi : (w.module m).globals[i]? = some g)
    (hv : g.init = some v) :
    ((w.contextOf m).types.owns g.type ∧ (w.contextOf m).types.owns v.type) ∧
      (w.reinit m i v = w ∧ ∀ u, ((w.reinit m i u).verify m = .ok ((w.reinit m i u).certificate m) ↔
          (w.contextOf m).types.owns u.type) ∧
        ((w.reinit m i u).verify m = .ok ((w.reinit m i u).certificate m) ∧
            (w.reinit m i u).Starts m g.type u ↔
          (w.module m).checkInit (w.contextOf m) g.name g.type u = .ok ())) ∧
      (w.Initialized → w.Starts m g.type v) := by
  have hverified := (verify_eq_ok_iff.1 h).1
  obtain ⟨htype, hinit⟩ := hverified.globals g (List.mem_of_getElem? hi)
  have hreinit (u : Value) : (w.reinit m i u).verify m = .ok ((w.reinit m i u).certificate m) ↔
      (w.contextOf m).types.owns u.type := by
    rw [← hverified.reinit_iff (List.getElem?_eq_some_iff.1 hi).1]
    exact ⟨fun hu => (verify_eq_ok_iff.1 hu).1, fun hu => verify_eq_ok_iff.2 ⟨hu, rfl⟩⟩
  refine ⟨⟨htype, hinit v hv⟩, ⟨reinit_self hi hv, fun u => ⟨hreinit u, ?_⟩⟩, fun hw => ?_⟩
  · rw [hreinit, starts_reinit_iff, starts_iff_mayInit, Module.checkInit_iff]
    exact ⟨fun hu => hu.2, fun hu => ⟨hu.type ▸ htype, hu⟩⟩
  · exact starts_iff_mayInit.2 (hw.mayInit hi hv hverified.alive)

theorem verify_linked : linked.verify 0 = .ok (linked.certificate 0) :=
  verify_eq_ok_iff.2 ⟨violations_eq_nil_iff.1 (by cbv), rfl⟩

theorem starts_linked : linked.verify 0 = .ok (linked.certificate 0) ∧
    linked.Starts 0 ⟨1, 1⟩ (.const ⟨1, 1⟩ 1 1) ∧ linked.Starts 0 ⟨1, 3⟩ (.global ⟨1, 3⟩ 0 1 true) := by
  have hr : linked.Initialized := (reachable_foldl .empty).initialized
  exact ⟨verify_linked, (starts_iff_of_verify (i := 0) verify_linked rfl rfl).2.2 hr,
    (starts_iff_of_verify (i := 1) verify_linked rfl rfl).2.2 hr⟩

theorem not_starts_of_verify :
    (¬ ∀ (w : World) (m i : Nat) (c : Certificate) (g : Global) (v : Value), w.verify m = .ok c →
      (w.module m).globals[i]? = some g → g.init = some v → v.type = g.type) ∧
    (¬ ∀ (w : World) (m i : Nat) (c : Certificate) (g : Global) (v : Value), w.verify m = .ok c →
      (w.module m).globals[i]? = some g → g.init = some v →
        (w.assemblyEnv m).value v ≠ "<invalid constant>") ∧
    ¬ ∀ (w : World) (m i : Nat) (c : Certificate) (g : Global) (v : Value), w.verify m = .ok c →
      (w.module m).globals[i]? = some g → g.init = some v →
        (w.assemblyEnv m).value v ≠ "@<unknown>" := by
  have hv {v : Value} (ho : (linked.contextOf 0).types.owns v.type) :
      (linked.reinit 0 0 v).verify 0 = .ok ((linked.reinit 0 0 v).certificate 0) :=
    verify_eq_ok_iff.2 ⟨((verify_eq_ok_iff.1 verify_linked).1.reinit_iff (by decide)).2 ho, rfl⟩
  refine ⟨fun h => ?_, fun h => ?_, fun h => ?_⟩
  · exact absurd (h _ 0 0 _ _ (.global ⟨1, 3⟩ 0 1 true) (hv (by decide)) rfl rfl) (by decide)
  · exact h _ 0 0 _ _ (.const ⟨1, 1⟩ 99 1) (hv (by decide)) rfl rfl rfl
  · exact h _ 0 0 _ _ (.global ⟨1, 1⟩ 7 1 false) (hv (by decide)) rfl rfl rfl

end World

end TypedIR
