import TypedIR.Proofs.Certificate.Transfer
import TypedIR.Proofs.Naming.Temps
import TypedIR.Proofs.Verify.Arrangement

namespace TypedIR

namespace Func

variable {f f' : Func} {id : Nat} {x : Block}

/-- Labels that tell the blocks of a function apart. -/
structure LabelsApart (f : Func) : Prop where
  nonempty : ∀ id x, f.blocks.get? id = some x → x.label ≠ ""
  inj : ∀ i j x y, f.blocks.get? i = some x → f.blocks.get? j = some y → x.label = y.label → i = j

theorem labelsApart_iff : f.LabelsApart ↔
    (∀ e ∈ f.blocks.entries, e.2.label ≠ "") ∧ (f.blocks.entries.map (·.2.label)).Nodup := by
  have hentries : f.blocks.entries.Nodup := f.blocks.nodup.of_map _
  constructor
  · rintro ⟨hne, hinj⟩
    refine ⟨fun e he => hne e.1 e.2 (BlockList.get?_eq_some_iff.2 he), hentries.map_on ?_⟩
    intro e he e' he' hl
    have hid := hinj e.1 e'.1 e.2 e'.2 (BlockList.get?_eq_some_iff.2 he)
      (BlockList.get?_eq_some_iff.2 he') hl
    exact List.inj_on_of_nodup_map f.blocks.nodup he he' hid
  · rintro ⟨hne, hnodup⟩
    refine ⟨fun id x hx => hne (id, x) (BlockList.get?_eq_some_iff.1 hx), fun i j x y hx hy hl => ?_⟩
    exact congrArg Prod.fst (List.inj_on_of_nodup_map hnodup (BlockList.get?_eq_some_iff.1 hx)
      (BlockList.get?_eq_some_iff.1 hy) hl)

instance : Decidable f.LabelsApart := decidable_of_iff _ labelsApart_iff.symm

theorem LabelsApart.find? (h : f.LabelsApart) (hx : f.blocks.get? id = some x) :
    f.blocks.find? x.label = some id := by
  rw [BlockList.find?]
  cases he : f.blocks.entries.find? (·.2.label = x.label) with
  | none =>
    have hx := List.find?_eq_none.1 he _ (BlockList.get?_eq_some_iff.1 hx)
    simp at hx
  | some e =>
    have hy := BlockList.get?_eq_some_iff.2 (List.mem_of_find?_eq_some he)
    have hl : e.2.label = x.label := by simpa using List.find?_some he
    rw [Option.map_some, h.inj e.1 id e.2 x hy hx hl]

structure LabelsKept (f : Func) : Prop extends f.LabelsApart where
  positive : f.labelUses.Positive
  taken : ∀ id x, f.blocks.get? id = some x → f.labelUses.taken x.label

theorem Bare.labelsKept (h : f.Bare) : f.LabelsKept := by
  refine ⟨⟨?_, ?_⟩, ?_, ?_⟩
  · simp [h.get?]
  · simp [h.get?]
  · simp [NameUses.Positive, h.labelUses]
  · simp [h.get?]

end Func

theorem NameUses.claim_ne_empty (u : NameUses) {base : String} (h : base ≠ "") :
    (u.claim base).1 ≠ "" := by
  rcases u.claim_cases base with ⟨-, he⟩ | ⟨-, k, -, he⟩
  · rw [he]
    exact h
  · rw [he]
    intro hk
    have hl := congrArg String.toList hk
    simp [toList_suffixed] at hl

namespace Func.LabelsKept

variable {f f' : Func}

theorem addBlock (h : f.LabelsKept) (self : FuncRef) (label : String) :
    (f.addBlock self label).2.LabelsKept := by
  rw [Func.addBlock]
  generalize hb : (if label.isEmpty then "bb" else label) = base
  have hbase : base ≠ "" := by
    rw [← hb]
    split
    · simp
    next hl => simpa using hl
  have hfree := NameUses.not_taken_claim h.positive base
  have hnew (x : String) : (f.labelUses.claim base).2.taken x ↔
      x = (f.labelUses.claim base).1 ∨ f.labelUses.taken x := NameUses.taken_claim h.positive
  -- A block is one that was there, or the new one.
  have hcases {id : Nat} {x : Block}
      (hx : (f.blocks.push ⟨(f.labelUses.claim base).1, some self, []⟩).get? id = some x) :
      f.blocks.get? id = some x ∨ id = f.blocks.size ∧ x.label = (f.labelUses.claim base).1 := by
    rw [BlockList.get?_push] at hx
    split at hx
    next hid =>
      obtain rfl := Option.some.inj hx
      exact .inr ⟨hid, rfl⟩
    next => exact .inl hx
  refine ⟨⟨fun id x hx => ?_, fun i j x y hx hy hxy => ?_⟩, NameUses.positive_claim h.positive base,
    fun id x hx => ?_⟩
  · rcases hcases hx with hx | ⟨-, hx⟩
    · exact h.nonempty id x hx
    · rw [hx]
      exact f.labelUses.claim_ne_empty hbase
  · rcases hcases hx with hx | ⟨hi, hlx⟩ <;> rcases hcases hy with hy | ⟨hj, hly⟩
    · exact h.inj i j x y hx hy hxy
    · exact absurd (h.taken i x hx) (by rwa [hxy, hly])
    · exact absurd (h.taken j y hy) (by rwa [← hxy, hlx])
    · rw [hi, hj]
  · rcases hcases hx with hx | ⟨-, hx⟩
    · exact (hnew _).2 (.inr (h.taken id x hx))
    · exact (hnew _).2 (.inl hx)

theorem modify (h : f.LabelsKept) (id : Nat) {g : Block → Block} (hg : ∀ b, (g b).label = b.label) :
    LabelsKept { f with blocks := f.blocks.modify id g } := by
  have hold {k : Nat} {x : Block} (hx : (f.blocks.modify id g).get? k = some x) :
      ∃ y, f.blocks.get? k = some y ∧ x.label = y.label := by
    rw [BlockList.get?_modify] at hx
    split at hx
    · obtain ⟨y, hy, rfl⟩ := Option.map_eq_some_iff.1 hx
      exact ⟨y, hy, hg y⟩
    · exact ⟨x, hx, rfl⟩
  refine ⟨⟨fun k x hx => ?_, fun i j x y hx hy hxy => ?_⟩, h.positive, fun k x hx => ?_⟩
  · obtain ⟨x', hx', he⟩ := hold hx
    exact he ▸ h.nonempty k x' hx'
  · obtain ⟨x', hx', hex⟩ := hold hx
    obtain ⟨y', hy', hey⟩ := hold hy
    exact h.inj i j x' y' hx' hy' (hex.symm.trans (hxy.trans hey))
  · obtain ⟨x', hx', he⟩ := hold hx
    exact he ▸ h.taken k x' hx'

theorem newTemp (h : f.LabelsKept) (type : TypeRef) (name : String) :
    (f.newTemp type name).2.LabelsKept := by
  obtain ⟨t, uses, he, -⟩ := f.newTemp_eq type name
  rw [he]
  exact ⟨⟨h.nonempty, h.inj⟩, h.positive, h.taken⟩

theorem writes (h : f.LabelsKept) (hw : f.Writes f') : f'.LabelsKept := by
  induction hw with
  | refl => exact h
  | temp _ type name ih => exact ih.newTemp type name
  | block _ self label ih => exact ih.addBlock self label
  | instrs _ id g hg ih => exact ih.modify id fun b => (hg b).1

end Func.LabelsKept

def Change.relabels : Change → Bool
  | .func _ (.label ..) => true
  | _ => false

theorem Func.LabelsKept.apply {f : Func} (h : f.LabelsKept) {g self : FuncRef} {e : FuncEdit}
    (he : (Change.func g e).relabels = false) : (e.apply self f).LabelsKept := by
  cases e with
  | label => cases he
  | instrs block is => exact h.modify block fun _ => rfl
  | addBlock label => exact h.addBlock self label
  | newTemp type name => exact h.newTemp type name
  | _ => exact ⟨⟨h.nonempty, h.inj⟩, h.positive, h.taken⟩

namespace World

variable {w : World} {m : Nat} {f : FuncRef} {fn : Func} {certificate : Certificate}

/-- As the label of a block of the function, the text names this block and no other. -/
def NamesBlock (w : World) (f : FuncRef) (text : String) (b : BlockRef) : Prop :=
  ∀ c, c = b ↔ ∃ x, (c, x) ∈ w.blocksOf f ∧ text = "%" ++ x.label

/-- Labels by which blocks are told apart and found, also in what is written for branches. -/
structure Unambiguous (w : World) (f : FuncRef) : Prop where
  labels : (w.func f).LabelsApart
  found : ∀ id x, (w.func f).blocks.get? id = some x → (w.func f).blocks.find? x.label = some id
  targets : ∀ s ∈ w.sites f, ∀ t ∈ s.instr.targets, ∃ b, t = some b ∧
    w.NamesBlock f ((w.assemblyEnv f.module).block t) b

def TargetsInside (w : World) (f : FuncRef) : Prop :=
  ∀ s ∈ w.sites f, ∀ b, some b ∈ s.instr.targets → b.func = f

theorem namesBlock_label (h : (w.func f).LabelsApart) {b : BlockRef} {x : Block} (hb : b.func = f)
    (hx : w.block? b = some x) : w.NamesBlock f ((w.assemblyEnv m).block (some b)) b := by
  have htext : (w.assemblyEnv m).block (some b) = "%" ++ x.label := by
    rw [Assembly.Env.block]
    change "%" ++ w.label b = _
    rw [label, hx, Option.map_some, Option.getD_some]
  subst hb
  intro c
  rw [htext]
  constructor
  · rintro rfl
    exact ⟨x, mem_blocksOf.2 ⟨rfl, hx⟩, rfl⟩
  · rintro ⟨y, hy, he⟩
    obtain ⟨hc, hy⟩ := mem_blocksOf.1 hy
    rw [block?, hc] at hy
    have hid := h.inj c.id b.id y x hy hx (Assembly.percent_inj he).symm
    cases c
    cases b
    simp_all

theorem Verified.unambiguous_iff (hv : w.Verified m) (hf : f ∈ w.funcRefs m) :
    w.Unambiguous f ↔ (w.func f).LabelsApart ∧ w.TargetsInside f := by
  constructor
  · refine fun hu => ⟨hu.labels, fun s hs b hb => ?_⟩
    obtain ⟨c, hc, hn⟩ := hu.targets s hs (some b) hb
    obtain rfl := Option.some.inj hc
    obtain ⟨x, hx, -⟩ := (hn b).1 rfl
    exact (mem_blocksOf.1 hx).1
  · rintro ⟨hl, ht⟩
    refine ⟨hl, fun id x hx => hl.find? hx, fun s hs t hst => ?_⟩
    obtain ⟨b, x, rfl, hx, -⟩ := exists_of_isBlockOf ((hv.instrUntold hf hs).targets t hst)
    exact ⟨b, rfl, namesBlock_label hl (ht s hs b hst) hx⟩

/-- Worlds where no label was written over. -/
abbrev Labelled : World → Prop := ChangedBy fun _ c => c.relabels = false

theorem Labelled.func_induction {p : Func → Prop}
    (declared : ∀ {f : Func}, f.Bare → p f)
    (built : ∀ {f f' : Func}, p f → f.Writes f' → p f')
    (written : ∀ {f : Func} {g self : FuncRef} {e : FuncEdit}, p f → (Change.func g e).relabels = false →
      p (e.apply self f))
    (h : w.Labelled) (hf : w.func? f = some fn) : p fn := by
  induction h generalizing fn with
  | empty => exact absurd (lt_of_func? hf) (by simp)
  | @change w h c hc ih =>
    cases c with
    | operation o =>
      rcases writes_or_declares w o f.module with hs | ⟨-, hd⟩
      · obtain ⟨gn, hgn, hw⟩ := hs.funcs f.index fn hf
        exact built (ih hgn) hw
      · rcases hd.of_func hf with hgn | ⟨_, _, _, _, _, _, _, _, -, -, rfl⟩
        · exact ih hgn
        · exact declared (Module.bare_newFunc ..)
    | func g e =>
      rw [World.change, func?_modifyFunc] at hf
      split at hf
      · obtain ⟨gn, hgn, rfl⟩ := Option.map_eq_some_iff.1 hf
        exact written (ih (by simp [*])) hc
      · exact ih hf
    | global k i g =>
      rw [World.change, func?_modifyGlobal] at hf
      exact ih hf

theorem Labelled.labelsKept (h : w.Labelled) (hf : w.func? f = some fn) : fn.LabelsKept :=
  h.func_induction (fun hb => hb.labelsKept) (fun hk => hk.writes) (fun hk => hk.apply) hf

theorem Labelled.targetsInside (h : w.Labelled) (hv : w.Verified m) (hf : f ∈ w.funcRefs m) :
    w.TargetsInside f := fun _ hs b hb =>
  h.tidy.blocks.func_of_isBlockOf ((hv.instrUntold hf hs).targets (some b) hb)

section Relabel

variable (w : World) (m : Nat) (f g : FuncRef) (id : Nat) (label : String)

theorem func?_relabel :
    (w.change (.func g (.label id label))).func? f = (w.func? f).map fun fn =>
      if f = g then { fn with blocks := fn.blocks.modify id ({ · with label }) } else fn := by
  rw [change, func?_modifyFunc]
  split
  next h =>
    rw [h]
    rfl
  next => rw [Option.map_id']

theorem module_relabel : ∃ funcs, funcs.length = (w.module m).funcs.length ∧
    (w.change (.func g (.label id label))).module m = { w.module m with funcs } := by
  rw [change, module_modifyFunc]
  split
  · exact ⟨_, List.length_modify .., rfl⟩
  · exact ⟨_, rfl, rfl⟩

theorem resembles_relabel {fn : Func} (hf : w.func? f = some fn) :
    ∃ fn', (w.change (.func g (.label id label))).func? f = some fn' ∧ fn.Resembles fn' ∧
      fn'.retType = fn.retType := by
  rw [func?_relabel, hf, Option.map_some]
  split
  · exact ⟨_, rfl, ⟨FuncEdit.keeps_apply (.label id label) f fn, rfl, rfl, rfl⟩, rfl⟩
  · exact ⟨_, rfl, .refl fn, rfl⟩

theorem code_relabel : (w.change (.func g (.label id label))).code f = w.code f := by
  simp only [code, blocksOf, func, func?_relabel]
  cases w.func? f with
  | none => rfl
  | some fn =>
    simp only [Option.map_some, Option.getD_some]
    split
    · simp only [BlockList.modify, List.map_map]
      refine List.map_congr_left fun e _ => ?_
      by_cases he : e.1 = id <;> simp [he, Block.code]
    · rfl

theorem isBlockOf_relabel (b : Option BlockRef) :
    (w.change (.func g (.label id label))).isBlockOf f b = w.isBlockOf f b := by
  cases b with
  | none => rfl
  | some b =>
    have hparent : (w.change (.func g (.label id label))).parent? b = w.parent? b := by
      simp only [parent?, block?, func, func?_relabel]
      cases w.func? b.func with
      | none => rfl
      | some fn =>
        simp only [Option.map_some, Option.getD_some]
        split
        · rw [BlockList.get?_modify]
          split
          · cases fn.blocks.get? b.id <;> rfl
          · rfl
        · rfl
    rw [isBlockOf, isBlockOf, hparent]

variable {w m f}

theorem InstrUntold.relabel {i : Instr} (hf : f ∈ w.funcRefs m) (h : w.InstrUntold m f i) :
    (w.change (.func g (.label id label))).InstrUntold m f i := by
  obtain ⟨fn, hfn⟩ := func?_of_mem_funcRefs hf
  obtain ⟨fn', hfn', -, hret⟩ := resembles_relabel w f g id label hfn
  obtain ⟨funcs, -, hm⟩ := module_relabel w m g id label
  refine ⟨fun b hb => ?_, fun b hb => ?_, fun hop => ?_, fun v hv hk hvf => ?_⟩
  · rw [isBlockOf_relabel]
    exact h.targets b hb
  · rw [isBlockOf_relabel]
    exact h.incoming b hb
  · have hold := h.ret hop
    rw [func_eq hfn, Instr.checkRet_iff] at hold
    rw [change, contextOf_modifyFunc, ← change, func_eq hfn', Instr.checkRet_iff, hret]
    exact hold
  · have hold := h.globals v hv hk hvf
    rw [hm]
    simpa [Module.symbolName?, hvf] using hold

theorem Verified.relabel (h : w.Verified m) (hc : (w.contextOf m).types.Closed) :
    (w.change (.func g (.label id label))).Verified m := by
  obtain ⟨funcs, hlen, hm⟩ := module_relabel w m g id label
  have hrefs : (w.change (.func g (.label id label))).funcRefs m = w.funcRefs m := by
    rw [funcRefs, funcRefs, hm, hlen]
  have hcarried : w.Carried (w.change (.func g (.label id label))) m := by
    refine ⟨h, hc, ?_, by rw [hm], hrefs, ?_, fun i fn hi => ?_,
      fun f _ => code_relabel w f g id label, fun f hf s hs => ?_⟩
    · rw [change, contextOf_modifyFunc]
      exact .refl _
    · rw [hm]
      exact List.forall₂_same.2 fun _ _ => ⟨rfl, rfl⟩
    · obtain ⟨fn', hfn', hr, -⟩ := resembles_relabel w ⟨m, i⟩ g id label hi
      exact ⟨fn', hfn', hr⟩
    · obtain ⟨t, hs, -, -, he⟩ := site_of_code (code_relabel w f g id label) hs
      have hu := (h.instrUntold (hrefs ▸ hf) hs).relabel g id label (hrefs ▸ hf)
      rw [he]
      exact ⟨hu.targets, hu.incoming, hu.ret, hu.globals⟩
  exact hcarried.verified'

end Relabel

/-- The labels of a function in a verified module are unambiguous just when they tell its blocks apart
and the blocks that branches lead to stand in the function. Where no label was written over they are;
and whatever is written over one, the module is verified again. -/
theorem unambiguous_iff_of_verify (h : w.verify m = .ok certificate) (hf : f ∈ w.funcRefs m) :
    (w.Unambiguous f ↔ (w.func f).LabelsApart ∧ w.TargetsInside f) ∧
      (w.Labelled → w.Unambiguous f) ∧
      ((w.contextOf m).types.Closed → ∀ id label, (w.change (.func f (.label id label))).verify m =
        .ok ((w.change (.func f (.label id label))).certificate m)) := by
  have hv := (verify_eq_ok_iff.1 h).1
  refine ⟨hv.unambiguous_iff hf, fun hw => (hv.unambiguous_iff hf).2 ⟨?_, hw.targetsInside hv hf⟩,
    fun hc id label => verify_eq_ok_iff.2 ⟨hv.relabel f id label hc, rfl⟩⟩
  obtain ⟨fn, hfn⟩ := func?_of_mem_funcRefs hf
  rw [func_eq hfn]
  exact (hw.labelsKept hfn).toLabelsApart

theorem verify_diamond : diamond.verify 0 = .ok (diamond.certificate 0) :=
  verify_eq_ok_iff.2 ⟨violations_eq_nil_iff.1 (by cbv), rfl⟩

theorem unambiguous_diamond : diamond.verify 0 = .ok (diamond.certificate 0) ∧
    diamond.Unambiguous ⟨0, 0⟩ := by
  have hl : (diamond.func ⟨0, 0⟩).LabelsApart := by decide
  have ht : ∀ s ∈ diamond.sites ⟨0, 0⟩, ∀ t ∈ s.instr.targets, t.map (·.func) = some ⟨0, 0⟩ := by
    decide
  refine ⟨verify_diamond, (unambiguous_iff_of_verify verify_diamond (by decide)).1.2 ⟨hl, ?_⟩⟩
  exact fun s hs b hb => Option.some.inj (ht s hs _ hb)

def relabelled (label : String) : World := diamond.change (.func ⟨0, 0⟩ (.label 3 label))

theorem not_labelsApart_of_verify :
    (¬ ∀ (w : World) (m : Nat) (c : Certificate) (f : FuncRef), w.verify m = .ok c → f ∈ w.funcRefs m →
      ∀ id x, (w.func f).blocks.get? id = some x → (w.func f).blocks.find? x.label = some id) ∧
    ¬ ∀ (w : World) (m : Nat) (c : Certificate) (f : FuncRef), w.verify m = .ok c → f ∈ w.funcRefs m →
      ∀ id x, (w.func f).blocks.get? id = some x → x.label ≠ "" := by
  have hclosed : (diamond.contextOf 0).types.Closed := by
    have hparts : ∀ d ∈ (diamond.contextOf 0).types.arena, ∀ p ∈ d.parts,
        (diamond.contextOf 0).types.owns p := by decide
    exact fun t d ht => hparts d (TypeRegistry.mem_arena_of_lookup ht)
  have hv (label : String) : (relabelled label).verify 0 = .ok ((relabelled label).certificate 0) :=
    verify_eq_ok_iff.2 ⟨(verify_eq_ok_iff.1 verify_diamond).1.relabel ⟨0, 0⟩ 3 label hclosed, rfl⟩
  constructor
  · intro h
    exact absurd (h _ 0 _ ⟨0, 0⟩ (hv "left") (by decide) 3 _ rfl) (by decide)
  · intro h
    exact h _ 0 _ ⟨0, 0⟩ (hv "") (by decide) 3 _ rfl rfl

end World

end TypedIR
