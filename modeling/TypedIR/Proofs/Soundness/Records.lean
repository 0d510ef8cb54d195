import TypedIR.Proofs.Declaration.Writing
import TypedIR.Proofs.Soundness.Reachable

namespace TypedIR

def Func.Records (f : Func) : Prop :=
  ∀ id x, f.blocks.get? id = some x → ∀ i ∈ x.instrs, ∀ r, i.result = some r →
    f.temps[r]?.map (·.type) = some i.type

namespace Func

variable {f : Func}

theorem Bare.records (h : f.Bare) : f.Records := fun id x hx => by simp [h.get?] at hx

theorem Records.addBlock (h : f.Records) (self : FuncRef) (label : String) :
    (f.addBlock self label).2.Records := by
  intro id x hx i hi
  rcases World.instrs_addBlock hx with hx | ⟨-, hx⟩
  · exact h id x hx i hi
  · simp [hx] at hi

theorem Records.addEdge (h : f.Records) (id index : Nat) (block : BlockRef) (v : Value) :
    Records { f with blocks := f.blocks.modify id (·.addEdge index block v) } := by
  intro k x hx i hi r hr
  rw [BlockList.get?_modify] at hx
  split at hx
  · obtain ⟨y, hy, rfl⟩ := Option.map_eq_some_iff.1 hx
    rcases mem_modify hi with hi | ⟨j, hj, rfl⟩
    · exact h k y hy i hi r hr
    · exact h k y hy j (List.mem_of_getElem? hj) r hr
  · exact h k x hx i hi r hr

end Func

namespace World

variable {w : World} {f : FuncRef} {fn : Func}

def Recorded (w : World) : Prop := ∀ f fn, w.func? f = some fn → fn.Records

theorem recorded_of_eq {w' : World} (h : w.Recorded) (he : w'.modules = w.modules) : w'.Recorded := by
  intro f fn hf
  rw [func?, module_congr he] at hf
  exact h f fn hf

theorem Recorded.modifyFunc (h : w.Recorded) {g : Func → Func}
    (hg : ∀ fn, w.func? f = some fn → (g fn).Records) : (w.modifyFunc f g).Recorded := by
  intro k fn hk
  rw [func?_modifyFunc] at hk
  split at hk
  · obtain ⟨gn, hgn, rfl⟩ := Option.map_eq_some_iff.1 hk
    exact hg gn hgn
  · exact h k fn hk

end World

namespace BuildState

variable {s s' : BuildState} {v : Option Value} {i : Instr} {givesValue : Bool} {x : Insertion}
  {block : Block} {fn : Func}

theorem Planned.records (h : s.Planned i givesValue x block) (hr : i.result = none) (name : String)
    (hf : s.world.func? x.func = some fn) (hb : fn.blocks.get? x.block.id = some block)
    (hold : fn.Records) : (inserted x givesValue name fn).Records := by
  obtain ⟨new, htemps, hnew, hlen⟩ := temps_inserted x givesValue name fn
  have hkeep {r : Nat} {t : TypeRef} (ht : fn.temps[r]?.map (·.type) = some t) :
      (inserted x givesValue name fn).temps[r]?.map (·.type) = some t := by
    obtain ⟨u, hu, rfl⟩ := Option.map_eq_some_iff.1 ht
    rw [htemps, List.getElem?_append_left (List.getElem?_eq_some_iff.1 hu).1, hu, Option.map_some]
  intro id y hy j hj r hjr
  rcases get?_inserted hb hy with hy | ⟨-, rfl⟩
  · exact hkeep (hold id y hy j hj r hjr)
  · rw [Block.insert, List.mem_append, List.mem_cons] at hj
    rcases hj with hj | rfl | hj
    · exact hkeep (hold _ _ hb j (List.mem_of_mem_take hj) r hjr)
    · cases givesValue with
      | false => simp [h.instr, hr] at hjr
      | true =>
        obtain ⟨t, rfl⟩ := List.length_eq_one_iff.1 hlen
        obtain rfl : fn.temps.length = r := by simpa [h.instr, World.func_eq hf] using hjr
        rw [htemps, List.getElem?_concat_length, Option.map_some, hnew t (by simp)]
    · exact hkeep (hold _ _ hb j (List.mem_of_mem_drop hj) r hjr)

theorem Outcome.recorded (h : s.Outcome v s') (ht : s.world.Tidy) (hr : s.world.Recorded) :
    s'.world.Recorded := by
  cases h with
  | inserted h =>
    cases h with
    | @insert s₁ i x givesValue name h hp hres =>
      obtain ⟨block, hplan⟩ := planned_of_plan hp
      have ht := h.advances.tidy ht
      have hr := World.recorded_of_eq hr h.modules
      obtain ⟨fn, hf, hb⟩ := hplan.exists_func ht
      rw [world_commit (hplan.func_block ht)]
      refine hr.modifyFunc fun gn hgn => ?_
      obtain rfl := Option.some.inj (hf.symm.trans hgn)
      exact hplan.records hres name hf hb (hr x.func fn hf)
  | @appended f label =>
    refine hr.modifyFunc fun fn hfn => ?_
    rw [World.func_eq hfn]
    exact (hr f fn hfn).addBlock f label
  | connected => exact hr.modifyFunc fun fn hfn => (hr _ fn hfn).addEdge _ _ _ _
  | moved => exact hr

end BuildState

namespace World

variable {w : World} {f : FuncRef} {fn : Func}

theorem recorded_perform (ht : w.Tidy) (hr : w.Recorded) (o : Operation) : (w.perform o).Recorded := by
  by_cases hb : ∃ b call, o = .build b call
  · obtain ⟨b, call, rfl⟩ := hb
    rcases call.outcome_or_asks ⟨w, b⟩ with ⟨v, h⟩ | h
    · exact h.recorded ht hr
    · exact recorded_of_eq hr h.modules
  · simp only [not_exists] at hb
    intro f fn hf
    rcases same_or_declares hb f.module with hs | ⟨-, hd⟩
    · rw [func?, hs.funcs] at hf
      exact hr f fn hf
    · rcases hd.of_func hf with hf | ⟨_, _, _, _, _, _, _, _, -, -, rfl⟩
      · exact hr f fn hf
      · exact (Module.bare_newFunc ..).records

theorem Reachable.recorded (h : w.Reachable) : w.Recorded := by
  induction h with
  | empty => exact fun f fn hf => absurd (lt_of_func? hf) (by simp)
  | perform h o ih => exact recorded_perform h.tidy_and_sound.1 ih o

theorem Reachable.tempValue?_result (h : w.Reachable) (hl : (w.contextOf f.module).isDisposed = false)
    (hf : w.func? f = some fn) {id r : Nat} {x : Block} {i : Instr} (hx : fn.blocks.get? id = some x)
    (hi : i ∈ x.instrs) (hr : i.result = some r) :
    fn.tempValue? r = some (.result i.type r fn.serial) := by
  obtain ⟨t, ht, htype⟩ := Option.map_eq_some_iff.1 (h.recorded f fn hf id x hx i hi r hr)
  have hmem : r ∈ fn.results := by
    refine List.mem_flatMap.2 ⟨(id, x), BlockList.get?_eq_some_iff.1 hx, ?_⟩
    exact List.mem_filterMap.2 ⟨i, hi, hr⟩
  have hperm := (h.tidy_and_sound.2.funcs f fn hf hl).results
  rw [func_eq hf] at hperm
  have hparam := (List.mem_range'_1.1 (hperm.mem_iff.1 hmem)).1
  rw [Func.tempValue?, ht, Option.map_some, if_neg (Nat.not_lt.2 hparam), htype]

end World

end TypedIR
