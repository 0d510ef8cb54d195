import Mathlib
import TypedIR.Proofs.Operation.Scopes
import TypedIR.Proofs.Soundness.Records

namespace TypedIR

namespace World

variable {w : World} {f : FuncRef} {v : Value}

/-- A value that agrees with that of a temporary of the function, of a type of the function's context. -/
def NamesTemp (w : World) (f : FuncRef) (v : Value) : Prop :=
  (w.contextOf f.module).types.owns v.type ∧ ∃ i u, (w.func f).tempValue? i = some u ∧ u.Agrees v

theorem namesTemp_iff_accepts (hk : v.kind = .result) : w.NamesTemp f v ↔ w.Accepts f v := by
  rw [accepts_iff, Value.known_iff_names (.inl hk), Func.names_iff (.inl hk), NamesTemp]

end World

namespace BuildState

variable {s s' : BuildState} {phi v : Value} {block : BlockRef} {site : InstrRef} {x : Block} {i : Instr}

/-- One edge was added, to a phi at the head of a block of a function of the builder's module. The handle
has the kind of the phi's value and the numbers of the function and of the result. -/
structure Connects (s : BuildState) (phi : Value) (block : BlockRef) (v : Value) (site : InstrRef)
    (x : Block) (i : Instr) (s' : BuildState) : Prop where
  module : site.block.func.module = s.builder.module
  found : s.world.block? site.block = some x
  head : x.phis[site.index]? = some i
  result : i.result = some phi.id
  kind : phi.kind = .result
  scope : phi.scope = (s.world.func site.block.func).serial
  parent : s.world.parent? block = some site.block.func
  operand : s.world.Accepts site.block.func v
  type : v.type = i.type
  after : s' = { s with world := s.world.modifyBlock site.block (·.addEdge site.index block v) }

theorem connects_of_addIncoming (h : BuildM.addIncoming phi block v s = .ok () s') :
    ∃ site x i, s.Connects phi block v site x i s' ∧ s.context.isDisposed = false := by
  rw [BuildM.addIncoming] at h
  cases hp : s.planIncoming phi block v with
  | error e => simp [hp] at h
  | ok site =>
    simp only [hp, EStateM.Result.ok.injEq, true_and] at h
    obtain ⟨fn, x, i, hplan, hname⟩ := named_of_planIncoming hp
    have hfn := World.func_eq hplan.func
    refine ⟨site, x, i, ?_, hplan.live⟩
    exact {
      module := hplan.module
      found := by rw [World.block?, hfn, hplan.found]
      head := hname.head
      result := hname.result
      kind := hname.kind
      scope := by rw [hfn, hname.scope]
      parent := hplan.parent
      operand := by
        rw [World.Accepts, hplan.module, hfn]
        exact hplan.operand
      type := hplan.type
      after := h.symm }

theorem Connects.namesTemp_iff (h : s.Connects phi block v site x i s') (hw : s.world.Reachable)
    (hl : s.context.isDisposed = false) :
    s.world.NamesTemp site.block.func phi ↔ phi.type = i.type := by
  have hlive : (s.world.contextOf site.block.func.module).isDisposed = false := by rwa [h.module]
  obtain ⟨fn, hf, hx⟩ := World.func?_of_block? h.found
  have hmem : i ∈ x.instrs := List.mem_of_getElem? (Block.instrs_of_phis h.head)
  have htemp : (s.world.func site.block.func).tempValue? phi.id =
      some (.result i.type phi.id fn.serial) := by
    rw [World.func_eq hf]
    exact hw.tempValue?_result hlive hf hx hmem h.result
  constructor
  · rintro ⟨-, k, u, hu, ha⟩
    have hid : u.id = k := by
      obtain ⟨t, -, rfl⟩ := Option.map_eq_some_iff.1 hu
      split <;> rfl
    rw [← hid, ha.id] at hu
    obtain rfl := Option.some.inj (htemp.symm.trans hu)
    exact ha.type.symm
  · intro htype
    have ha : (Value.result i.type phi.id fn.serial).Agrees phi :=
      ⟨h.kind.symm, htype.symm, rfl, by rw [h.scope, World.func_eq hf]; rfl⟩
    exact (World.namesTemp_iff_accepts h.kind).2 (World.accepts_of_tempValue? hw hlive htemp ha)

theorem Connects.type_ne (h : s.Connects phi block v site x i s') (hw : s.world.Reachable)
    (hl : s.context.isDisposed = false) {g : FuncRef} {k : Nat} {u : Value}
    (hu : (s.world.func g).tempValue? k = some u) (ha : u.Agrees phi)
    (hg : (s.world.module g.module).context ≠ s.module.context) : phi.type ≠ i.type := by
  intro ht
  obtain ⟨-, -, -, -, hcontext⟩ := World.of_tempValue? hw hu
  have howns : s.context.types.owns phi.type := by
    have hn := ((h.namesTemp_iff hw hl).2 ht).1
    rwa [h.module] at hn
  refine hg ?_
  rw [← hcontext, ha.type, TypeRegistry.context_of_owns howns]
  exact hw.id_context (World.valid_of_live hl).1 (World.valid_of_live hl).2

/-- A refused edge changes nothing, and an edge that is added is the only change, to the phi with the
numbers of the handle. The handle is the value of a temporary, as an operand would have to be, just when it
records the type of the phi; but with any other type it is taken, or refused, just the same. -/
theorem addIncoming_connects (s : BuildState) (phi : Value) (block : BlockRef) (v : Value) :
    (∀ e s', BuildM.addIncoming phi block v s = .error e s' →
      s' = s ∧ ∀ t, BuildM.addIncoming { phi with type := t } block v s = .error e s') ∧
      ∀ s', BuildM.addIncoming phi block v s = .ok () s' → ∃ site x i,
        s.Connects phi block v site x i s' ∧
          (s.world.NamesTemp site.block.func phi ↔ s.world.Accepts site.block.func phi) ∧
          (s.world.Reachable → (s.world.NamesTemp site.block.func phi ↔ phi.type = i.type) ∧
            (∀ g k u, (s.world.func g).tempValue? k = some u → u.Agrees phi →
              (s.world.module g.module).context ≠ s.module.context → phi.type ≠ i.type) ∧
            ∀ t, BuildM.addIncoming { phi with type := t } block v s = .ok () s' ∧
              (s.world.NamesTemp site.block.func { phi with type := t } ↔ t = i.type)) := by
  refine ⟨fun e s' h => ⟨?_, fun t => h⟩, fun s' h => ?_⟩
  · rw [BuildM.addIncoming] at h
    cases hp : s.planIncoming phi block v with
    | error e =>
      simp only [hp, EStateM.Result.error.injEq] at h
      exact h.2.symm
    | ok site => simp [hp] at h
  · obtain ⟨site, x, i, hc, hl⟩ := connects_of_addIncoming h
    have hretyped (t : TypeRef) : s.Connects { phi with type := t } block v site x i s' := { hc with }
    exact ⟨site, x, i, hc, World.namesTemp_iff_accepts hc.kind, fun hw =>
      ⟨hc.namesTemp_iff hw hl, fun _ _ _ hu ha hg => hc.type_ne hw hl hu ha hg,
        fun t => ⟨h, (hretyped t).namesTemp_iff hw hl⟩⟩⟩

end BuildState

namespace World

def phis : World :=
  [.build { module := 0 } (.appendBlock ⟨0, 0⟩ "entry"), .build { module := 1 } (.appendBlock ⟨1, 0⟩ "entry"),
    .build { module := 0, cursor := ⟨some ⟨⟨0, 0⟩, 0⟩, none⟩ } (.phi ⟨1, 1⟩ [] "p"),
    .build { module := 1, cursor := ⟨some ⟨⟨1, 0⟩, 0⟩, none⟩ } (.phi ⟨2, 1⟩ [] "p")].foldl perform twins

def secondTwin : BuildState := ⟨phis, { module := 1 }⟩

theorem reachable_secondTwin : secondTwin.world.Reachable := by
  dsimp only [secondTwin]
  exact reachable_foldl (reachable_foldl .empty)

theorem addIncoming_secondTwin (t : TypeRef) : ∃ s',
    BuildM.addIncoming (.result t 1 1) ⟨⟨1, 0⟩, 0⟩ (.param ⟨2, 1⟩ 0 1) secondTwin = .ok () s' := by
  have hp : secondTwin.planIncoming (.result t 1 1) ⟨⟨1, 0⟩, 0⟩ (.param ⟨2, 1⟩ 0 1) =
      .ok ⟨⟨⟨1, 0⟩, 0⟩, 0⟩ := by cbv
  simp only [BuildM.addIncoming, hp]
  exact ⟨_, rfl⟩

theorem namesTemp_secondTwin : ∃ s' site x i,
    BuildM.addIncoming (.result ⟨2, 1⟩ 1 1) ⟨⟨1, 0⟩, 0⟩ (.param ⟨2, 1⟩ 0 1) secondTwin = .ok () s' ∧
      secondTwin.Connects (.result ⟨2, 1⟩ 1 1) ⟨⟨1, 0⟩, 0⟩ (.param ⟨2, 1⟩ 0 1) site x i s' ∧
      secondTwin.world.NamesTemp site.block.func (.result ⟨2, 1⟩ 1 1) := by
  obtain ⟨s', h⟩ := addIncoming_secondTwin ⟨2, 1⟩
  obtain ⟨site, x, i, hc, -, ht⟩ := (BuildState.addIncoming_connects _ _ _ _).2 s' h
  exact ⟨s', site, x, i, h, hc, (ht reachable_secondTwin).1.2 hc.type⟩

theorem not_namesTemp_of_addIncoming :
    (¬ ∀ (s s' : BuildState) (phi v : Value) (block : BlockRef), s.world.Reachable →
      BuildM.addIncoming phi block v s = .ok () s' → phi.type.context = s.module.context) ∧
    ¬ ∀ (s s' : BuildState) (phi v : Value) (block : BlockRef), s.world.Reachable →
      phi.type.context = s.module.context → BuildM.addIncoming phi block v s = .ok () s' →
        ∃ site x i, s.Connects phi block v site x i s' ∧ phi.type = i.type := by
  have hcontext : secondTwin.module.context = 2 := by cbv
  constructor
  · intro h
    obtain ⟨s', hs⟩ := addIncoming_secondTwin ⟨1, 1⟩
    have hc := (h _ _ _ _ _ reachable_secondTwin hs).trans hcontext
    exact absurd hc (by decide)
  · intro h
    obtain ⟨s', hs⟩ := addIncoming_secondTwin ⟨2, 2⟩
    obtain ⟨site, x, i, hc, ht⟩ := h _ _ _ _ _ reachable_secondTwin hcontext.symm hs
    exact absurd (ht.trans hc.type.symm) (by decide)

end World

end TypedIR
