import TypedIR.Proofs.Certificate.Changes
import TypedIR.Proofs.Certificate.Code
import TypedIR.Proofs.Certificate.Encoding

namespace TypedIR

theorem map_eq_of_forall₂ {α β : Type} {r : α → α → Prop} {p : α → β} {as bs : List α}
    (h : List.Forall₂ r as bs) (hp : ∀ a ∈ as, ∀ b ∈ bs, r a b → p a = p b) :
    as.map p = bs.map p := by
  induction h with
  | nil => rfl
  | @cons a b as bs hab _ ih =>
    rw [List.map_cons, List.map_cons, hp a (by simp) b (by simp) hab,
      ih fun a ha b hb => hp a (by simp [ha]) b (by simp [hb])]

theorem Instr.Alike.bare_eq {i j : Instr} (h : i.Alike j) (ht : i.targets = j.targets)
    (hi : i.incoming = j.incoming) : i.bare = j.bare := by
  simp only [bare, h.op, h.type, h.result, h.predicate, h.typeOperand, h.operands, ht, hi]

namespace World

variable {w w' : World} {m : Nat} {f : FuncRef} {i : Instr}

/-- What is checked of an instruction and not told by its bytes: of which function the blocks are
that it names, what that function returns, and which addresses the globals have. -/
structure InstrUntold (w : World) (m : Nat) (f : FuncRef) (i : Instr) : Prop where
  targets : ∀ t ∈ i.targets, w.isBlockOf f t
  incoming : ∀ t ∈ i.incoming, w.isBlockOf f t
  ret : i.op = .ret → i.checkRet (w.contextOf m).types (w.func f) = .ok ()
  globals : ∀ v ∈ i.operands, v.kind = .global → v.isFunction = false →
    ((w.module m).symbolName? v).isSome

theorem Verified.instrUntold (hv : w.Verified m) (hf : f ∈ w.funcRefs m) {s : Site}
    (hs : s ∈ w.sites f) : w.InstrUntold m f s.instr := by
  obtain ⟨_, hblocks, hrule⟩ := checkInstr_eq_ok_iff.1 (hv.typing f hf s hs)
  rw [Instr.checkBlocks_iff] at hblocks
  refine ⟨hblocks.1, hblocks.2, fun hop => ?_, fun v hmem hk _ => ?_⟩
  · simpa [Instr.checkRule, Instr.checkTerminator, hop, Opcode.category] using hrule
  · simpa only [Value.Known, hk] using hv.known hf hs hmem

theorem exists_site {b : Block} (hb : b ∈ (w.func f).blocks.entries.map Prod.snd)
    (hi : i ∈ b.instrs) : ∃ s ∈ w.sites f, s.instr = i := by
  obtain ⟨⟨id, b⟩, he, rfl⟩ := List.mem_map.1 hb
  obtain ⟨n, hn⟩ := List.mem_iff_getElem?.1 hi
  have hx : (⟨f, id⟩, b) ∈ w.blocksOf f := List.mem_map.2 ⟨(id, b), he, rfl⟩
  exact ⟨⟨⟨f, id⟩, b, n, i⟩, mem_sites.2 ⟨rfl, (mem_blocksOf.1 hx).2, hn⟩, rfl⟩

theorem blocks_eq {ts ts' : List (Option BlockRef)} (hw : w.BlocksInPlace) (hw' : w'.BlocksInPlace)
    (h : List.Forall₂ (fun a b => a.map BlockRef.id = b.map BlockRef.id) ts ts')
    (ht : ∀ t ∈ ts, w.isBlockOf f t) (ht' : ∀ t ∈ ts', w'.isBlockOf f t) : ts = ts' := by
  have he := map_eq_of_forall₂ (p := id) h fun a ha b hb hab => ?_
  · simpa using he
  · cases a with
    | none => exact absurd (ht none ha) Bool.false_ne_true
    | some a =>
      cases b with
      | none => exact absurd (ht' none hb) Bool.false_ne_true
      | some b =>
        obtain ⟨af, ai⟩ := a
        obtain ⟨bf, bi⟩ := b
        obtain rfl : af = f := hw.func_of_isBlockOf (ht _ ha)
        obtain rfl : bf = af := hw'.func_of_isBlockOf (ht' _ hb)
        obtain rfl : ai = bi := Option.some.inj hab
        rfl

theorem code_eq_zipWith (w : World) (f : FuncRef) : w.code f =
    List.zipWith (fun id is => (⟨f, id⟩, is)) ((w.func f).blocks.entries.map Prod.fst)
      (((w.func f).blocks.entries.map Prod.snd).map Block.code) := by
  simp [World.code, blocksOf, List.zipWith_map_left, List.zipWith_map_right, List.zipWith_self]

end World

structure Func.Resembles (f f' : Func) : Prop extends f.Keeps f' where
  type : f'.type = f.type
  linkage : f'.linkage = f.linkage
  temps : f'.temps.map (·.type) = f.temps.map (·.type)

theorem Func.Resembles.refl (f : Func) : f.Resembles f := ⟨.refl f, rfl, rfl, rfl⟩

theorem Func.Resembles.recalls {f f' : Func} (h : f.Resembles f') : f.Recalls f' := by
  refine ⟨h.serial, by rw [h.params], fun i t ht => ?_⟩
  have hi : (f'.temps.map (·.type))[i]? = some t.type := by simp [h.temps, ht]
  simpa using hi

namespace World

variable {w w' : World} {m : Nat} {f : FuncRef} {i : Instr}

/-- A module that was verified, and one in its place with the same code, in a context that has grown. -/
structure Carried (w w' : World) (m : Nat) : Prop where
  verified : w.Verified m
  closed : (w.contextOf m).types.Closed
  contextOf : (w.contextOf m).Grows (w'.contextOf m)
  serial : (w'.module m).serial = (w.module m).serial
  funcRefs : w'.funcRefs m = w.funcRefs m
  globals : List.Forall₂ Global.Alike (w.module m).globals (w'.module m).globals
  funcs : ∀ (i : Nat) fn, (w.module m).funcs[i]? = some fn →
    ∃ fn', (w'.module m).funcs[i]? = some fn' ∧ fn.Resembles fn'
  code : ∀ f ∈ w.funcRefs m, w'.code f = w.code f
  untold : ∀ f ∈ w'.funcRefs m, ∀ s ∈ w'.sites f, w'.InstrUntold m f s.instr

namespace Carried

variable (h : w.Carried w' m)
include h

theorem alive : (w'.contextOf m).isDisposed = false :=
  h.contextOf.isDisposed.trans h.verified.alive

theorem recalls : (w.module m).RecallsFuncs (w'.module m) where
  serial := h.serial
  funcs := by
    intro i fn hi
    obtain ⟨fn', hi', hr⟩ := h.funcs i fn hi
    exact ⟨fn', hi', hr.refType, hr.type⟩

section Func

variable (hf : f ∈ w.funcRefs m)
include hf

theorem func : (w.func f).Resembles (w'.func f) := by
  obtain ⟨rfl, _⟩ := mem_funcRefs.1 hf
  obtain ⟨fn, hfn⟩ := func?_of_mem_funcRefs hf
  obtain ⟨fn', hfn', hr⟩ := h.funcs f.index fn hfn
  rwa [func_eq hfn, func_eq (f := f) hfn']

theorem untold' {s : Site} (hs : s ∈ w'.sites f) : w'.InstrUntold m f s.instr :=
  h.untold f (h.funcRefs ▸ hf) s hs

end Func

theorem flowGraph : w'.flowGraph m = w.flowGraph m :=
  flowGraph_of_code h.funcRefs h.code
    (fun _ hf _ hs => (h.verified.instrUntold hf hs).targets)
    fun _ hf _ hs => (h.untold' hf hs).targets

section Func

variable (hf : f ∈ w.funcRefs m)
include hf

theorem domTree : w'.domTree (w'.flowGraph m) f = w.domTree (w.flowGraph m) f := by
  rw [World.domTree, World.domTree, entryRef?_of_code (h.code _ hf), h.flowGraph]

theorem site {s' : Site} (hs : s' ∈ w'.sites f) : ∃ s ∈ w.sites f, s'.ref = s.ref ∧
    s'.index = s.index ∧ s'.instr = { s.instr with loc := s'.instr.loc } :=
  site_of_code (h.code _ hf) hs

theorem blockShape {b : BlockRef} {x : Block} (hx : (b, x) ∈ w'.blocksOf f) : w'.BlockShape f x := by
  obtain ⟨y, hy, hc⟩ := block_of_code (h.code _ hf) hx
  obtain ⟨⟨last, hlast⟩, hinstrs⟩ := (h.verified.shape f hf).blocks b y hy
  refine ⟨?_, fun n i hi => ?_⟩
  · have ht := Block.terminator?_of_code hc
    rw [hlast, Option.map_some, Option.map_eq_some_iff] at ht
    exact ⟨ht.choose, ht.choose_spec.1⟩
  · obtain ⟨j, hj, he⟩ := Block.getElem?_of_code hc hi
    have hold := hinstrs n j hj
    obtain ⟨hbf, hbx⟩ := mem_blocksOf.1 hx
    have hu := h.untold' hf (s := ⟨b, x, n, i⟩) (mem_sites.2 ⟨hbf, hbx, hi⟩)
    refine ⟨fun hp k hk => ?_, fun ht => ?_, hu.targets, hu.incoming⟩
    · obtain ⟨l, hl, hkl⟩ := Block.mem_take_of_code hc hk
      rw [he] at hp
      rw [hkl]
      exact hold.phi hp l hl
    · rw [he] at ht
      rw [Block.length_of_code hc]
      exact hold.terminator ht

theorem funcShape : w'.FuncShape (w'.flowGraph m) f := by
  have hold := h.verified.shape f hf
  have hdecl := isDeclaration_of_code (h.code _ hf)
  have hlink := (h.func hf).linkage
  refine ⟨fun hl => ?_, fun hl => ?_, fun b x hx => h.blockShape hf hx, fun b hb => ?_⟩
  · rw [hdecl]
    exact hold.imported (hlink.symm.trans hl)
  · rw [hdecl]
    exact hold.internal (hlink.symm.trans hl)
  · rw [h.flowGraph]
    exact hold.entry b ((entryRef?_of_code (h.code _ hf)).symm.trans hb)

theorem checkOperand {s : Site} (hs : s ∈ w'.sites f) {v : Value} (hv : v ∈ s.instr.operands)
    (ho : TypedIR.checkOperand (w.contextOf m) (w.module m) (w.func f) v = .ok ()) :
    TypedIR.checkOperand (w'.contextOf m) (w'.module m) (w'.func f) v = .ok () := by
  refine checkOperand_mono h.contextOf (h.func hf).recalls (fun hk hsome => ?_) ho
  cases hfn : v.isFunction with
  | true => exact h.recalls.symbolName? hfn hsome
  | false => exact (h.untold' hf hs).globals v hv hk hfn

theorem definition? {id : Nat} {s : Site} (hs : World.definition? (w.sites f) id = some s) :
    ∃ s', World.definition? (w'.sites f) id = some s' ∧ s'.ref = s.ref ∧ s'.index = s.index := by
  have hn := (h.verified.dominance f hf).nodup
  obtain ⟨hmem, hr⟩ := (definition?_eq_some_iff hn).1 hs
  obtain ⟨s', hs', href, hindex, he⟩ := site_of_code (h.code _ hf).symm hmem
  refine ⟨s', (definition?_eq_some_iff ?_).2 ⟨hs', ?_⟩, href.symm, hindex.symm⟩
  · rwa [results_of_code (h.code _ hf)]
  · rw [he] at hr
    exact hr

theorem funcDominance : w'.FuncDominance m f := by
  refine ⟨?_, fun use' hu' k v hv => ?_⟩
  · rw [results_of_code (h.code _ hf)]
    exact (h.verified.dominance f hf).nodup
  · obtain ⟨use, hu, href, hindex, he⟩ := h.site hf hu'
    have hv' : use.instr.operands[k]? = some v := by
      rw [he] at hv
      exact hv
    obtain ⟨ho, hd⟩ := (h.verified.dominance f hf).uses use hu k v hv'
    refine ⟨h.checkOperand hf hu' (List.mem_of_getElem? hv) ho, fun hk => ?_⟩
    obtain ⟨s, hs, hdom⟩ := hd hk
    obtain ⟨s', hs', hsref, hsindex⟩ := h.definition? hf hs
    refine ⟨s', hs', fun hc => ?_⟩
    rw [h.domTree hf] at hc ⊢
    rw [href] at hc
    have hdom := hdom hc
    rw [isDominated] at hdom ⊢
    rw [he, href, hindex, hsref, hsindex]
    exact hdom

theorem phiEdges {b : BlockRef} {x : Block} (hx : (b, x) ∈ w'.blocksOf f) (hi : i ∈ x.phis) :
    PhiEdges ((w'.flowGraph m).preds b) i := by
  obtain ⟨y, hy, hc⟩ := block_of_code (h.code _ hf) hx
  obtain ⟨j, hj, he⟩ := Block.mem_phis_of_code hc hi
  obtain ⟨hcovered, hpreds, hagree⟩ := h.verified.phis f hf b y hy j hj
  rw [h.flowGraph, he]
  exact ⟨hcovered, hpreds, hagree⟩

theorem instrTypes {s : Site} (hs : s ∈ w'.sites f) :
    InstrTypes (w'.contextOf m).types s.instr := by
  obtain ⟨t, ht, _, _, he⟩ := h.site hf hs
  obtain ⟨hresult, hoperand, hoperands⟩ :=
    ((h.verified.types f hf).instrs t ht).mono h.contextOf.types
  rw [he]
  exact ⟨hresult, hoperand, hoperands⟩

theorem funcTypes : w'.FuncTypes (w'.contextOf m).types f := by
  obtain ⟨hsignature, htemps, _⟩ := h.verified.types f hf
  have hr := h.func hf
  refine ⟨?_, fun t ht => ?_, fun s hs => h.instrTypes hf hs⟩
  · rw [hr.type]
    exact h.contextOf.types.owns hsignature
  · have hmem : t.type ∈ (w.func f).temps.map (·.type) := hr.temps ▸ List.mem_map_of_mem ht
    obtain ⟨t', ht', he⟩ := List.mem_map.1 hmem
    rw [← he]
    exact h.contextOf.types.owns (htemps t' ht')

theorem checkInstr {s : Site} (hs : s ∈ w'.sites f) : w'.checkInstr m f s.instr = .ok () := by
  have hu := h.untold' hf hs
  obtain ⟨t, ht, _, _, he⟩ := h.site hf hs
  obtain ⟨hresult, hoperand, hoperands⟩ := (h.verified.types f hf).instrs t ht
  have hops : ∀ v ∈ t.instr.operands,
      TypedIR.checkOperand (w.contextOf m) (w.module m) (w.func f) v = .ok () := by
    intro v hv
    obtain ⟨k, hk⟩ := List.mem_iff_getElem?.1 hv
    exact ((h.verified.dominance f hf).uses t ht k v hk).operand
  obtain ⟨hshape, _, hrule⟩ := checkInstr_eq_ok_iff.1 (h.verified.typing f hf t ht)
  refine checkInstr_eq_ok_iff.2 ⟨?_, Instr.checkBlocks_iff.2 ⟨hu.targets, hu.incoming⟩, ?_⟩
  · rw [he]
    exact hshape
  · have hret := hu.ret
    rw [he] at hret ⊢
    exact Instr.checkRule_mono h.contextOf h.closed h.recalls (fun hop _ => hret hop) hops
      ⟨hresult, hoperand, hoperands⟩ hrule

end Func

theorem globalTypes : ∀ g ∈ (w'.module m).globals, GlobalTypes (w'.contextOf m).types g := by
  intro g' hg'
  obtain ⟨i, hi', rfl⟩ := List.mem_iff_getElem.1 hg'
  have hi : i < (w.module m).globals.length := h.globals.length_eq ▸ hi'
  obtain ⟨htype, hinit⟩ : ((w.module m).globals[i]).Alike ((w'.module m).globals[i]) :=
    h.globals.get hi hi'
  obtain ⟨ht, hv⟩ := (h.verified.globals _ (List.getElem_mem hi)).mono h.contextOf.types
  exact ⟨htype ▸ ht, hinit ▸ hv⟩

theorem verified' : w'.Verified m := by
  have hr := h.funcRefs
  exact ⟨h.alive, fun f hf => h.funcShape (hr ▸ hf), fun f hf => h.funcDominance (hr ▸ hf),
    fun f hf b x hx i hi => h.phiEdges (hr ▸ hf) hx hi, h.globalTypes, fun f hf => h.funcTypes (hr ▸ hf),
    fun f hf s hs => h.checkInstr (hr ▸ hf) hs⟩

end Carried

structure Covered (w w' : World) (m : Nat) : Prop where
  verified : w.Verified m
  keeps : w.Keeps w'
  tidy : w.Tidy
  tidy' : w'.Tidy
  alike : (w.module m).Alike (w'.module m)
  alive : (w'.contextOf m).isDisposed = false
  untold : ∀ f ∈ w'.funcRefs m, ∀ s ∈ w'.sites f, w'.InstrUntold m f s.instr

namespace Covered

variable (h : w.Covered w' m)
include h

theorem lt : m < w.modules.length := lt_of_live h.verified.alive

theorem funcRefs : w'.funcRefs m = w.funcRefs m := by
  rw [World.funcRefs, World.funcRefs, h.alike.funcs.length_eq]

theorem funcs {i : Nat} {fn : Func} (hi : (w.module m).funcs[i]? = some fn) :
    ∃ fn', (w'.module m).funcs[i]? = some fn' ∧ fn.Keeps fn' ∧ fn.Alike fn' := by
  obtain ⟨fn', hi', hk⟩ := (h.keeps.modules m h.lt).funcs i fn hi
  refine ⟨fn', hi', hk, ?_⟩
  obtain ⟨hlt, rfl⟩ := List.getElem?_eq_some_iff.1 hi
  obtain ⟨hlt', rfl⟩ := List.getElem?_eq_some_iff.1 hi'
  exact h.alike.funcs.get hlt hlt'

theorem code (hf : f ∈ w.funcRefs m) : w'.code f = w.code f := by
  obtain ⟨rfl, _⟩ := mem_funcRefs.1 hf
  obtain ⟨fn, hfn⟩ := func?_of_mem_funcRefs hf
  obtain ⟨fn', hfn', hk, ha⟩ := h.funcs hfn
  rw [← func_eq hfn, ← func_eq (f := f) hfn'] at hk ha
  have hids : (w.func f).blocks.entries.map Prod.fst = (w'.func f).blocks.entries.map Prod.fst :=
    hk.ids.eq_of_length (by simpa using ha.blocks.length_eq)
  have hcode := map_eq_of_forall₂ (p := Block.code) ha.blocks fun b hb c hc hbc =>
    map_eq_of_forall₂ hbc fun i hi j hj hij => ?_
  · rw [code_eq_zipWith, code_eq_zipWith, hids, hcode]
  · obtain ⟨s, hs, rfl⟩ := exists_site hb hi
    obtain ⟨s', hs', rfl⟩ := exists_site hc hj
    have hu := h.verified.instrUntold hf hs
    have hu' := h.untold f (h.funcRefs ▸ hf) s' hs'
    exact hij.bare_eq (blocks_eq h.tidy.blocks h.tidy'.blocks hij.targets hu.targets hu'.targets)
      (blocks_eq h.tidy.blocks h.tidy'.blocks hij.incoming hu.incoming hu'.incoming)

theorem carried : w.Carried w' m where
  verified := h.verified
  closed := h.tidy.closed _ h.verified.alive
  contextOf := (h.keeps.contextOf (fun h => h.context) h.tidy h.lt h.alive).2
  serial := h.alike.serial.symm
  funcRefs := h.funcRefs
  globals := h.alike.globals
  funcs := by
    intro i fn hi
    obtain ⟨fn', hi', hk, ha⟩ := h.funcs hi
    exact ⟨fn', hi', hk, ha.type.symm, ha.linkage.symm, ha.temps.symm⟩
  code _ hf := h.code hf
  untold := h.untold

theorem verified' : w'.Verified m := h.carried.verified'

end Covered

end World

end TypedIR
