import TypedIR.Proofs.Soundness.Reachable

/-! Every builder call is a transaction: it is refused and functions and builder stay as they were, or
it does all of its work. -/

namespace TypedIR

namespace World

def ParentsMade (w : World) : Prop :=
  ∀ b x f, w.block? b = some x → x.parent = some f → (w.func? f).isSome

theorem Tidy.parentsMade {w : World} (h : w.Tidy) : w.ParentsMade := by
  intro b x f hx hp
  obtain ⟨fn, hf, -⟩ := func?_of_block? hx
  have hb : f = b.func := Option.some.inj (hp.symm.trans (h.blocks b x hx))
  rw [hb, hf, Option.isSome_some]

theorem func?_newTemp (w : World) (f : FuncRef) (type : TypeRef) (name : String) (g : FuncRef) :
    (w.newTemp f type name).2.func? g =
      (w.func? g).map fun fn => if g = f then (fn.newTemp type name).2 else fn := by
  rw [newTemp, func?_modifyFunc]
  cases hg : w.func? g with
  | none =>
    split
    next h => rw [← h, hg, Option.map_none, Option.map_none]
    next => rfl
  | some fn =>
    split
    next h => rw [← h, hg, func_eq hg, Option.map_some, Option.map_some]
    next => rfl

theorem func?_modifyBlock (w : World) (b : BlockRef) (k : Block → Block) (g : FuncRef) :
    (w.modifyBlock b k).func? g = (w.func? g).map fun fn =>
      if g = b.func then { fn with blocks := fn.blocks.modify b.id k } else fn := by
  rw [modifyBlock, func?_modifyFunc]
  split
  next h => rw [h]
  next => rw [Option.map_id']

end World

namespace BuildState

variable {s s' : BuildState} {i : Instr} {givesValue : Bool} {x : Insertion} {block : Block}
  {v : Option Value}

/-- One instruction stands where the cursor was, before what stood there. The temporaries that are new
are the one that the instruction defines, if it gives a value: that value is the answer. -/
structure Adds (s : BuildState) (x : Insertion) (block : Block) (new : List Temp) (uses : NameUses)
    (v : Option Value) (s' : BuildState) : Prop where
  cursor : s.builder.cursor.block = some x.block
  found : s.world.block? x.block = some block
  parent : block.parent = some x.func
  place : x.pos = s.builder.cursor.before.getD block.instrs.length
  pos : x.pos ≤ block.instrs.length
  inserted : s'.world.block? x.block = some (block.insert x.pos x.instr)
  funcs : ∀ g, s'.world.func? g = (s.world.func? g).map fun fn => { fn with
    blocks :=
      if g = x.block.func then fn.blocks.modify x.block.id (·.insert x.pos x.instr) else fn.blocks
    temps := if g = x.func then fn.temps ++ new else fn.temps
    tempUses := if g = x.func then uses else fn.tempUses }
  rest : ∀ k, ∃ funcs, s'.world.module k = { s.world.module k with funcs }
  value : match v with
    | none => x.instr.result = none ∧ new = [] ∧ uses = (s.world.func x.func).tempUses
    | some u => ∃ t, new = [t] ∧ t.type = x.instr.type ∧
      x.instr.result = some (s.world.func x.func).temps.length ∧
      (s'.world.func x.func).tempValue? (s.world.func x.func).temps.length = some u

theorem func?_commit (s : BuildState) (x : Insertion) (givesValue : Bool) (name : String)
    (g : FuncRef) : (s.commit x givesValue name).world.func? g = (s.world.func? g).map fun fn =>
      let fn := if givesValue ∧ g = x.func then (fn.newTemp x.instr.type name).2 else fn
      if g = x.block.func then { fn with blocks := fn.blocks.modify x.block.id (·.insert x.pos x.instr) }
      else fn := by
  cases givesValue with
  | false => simp [commit, World.func?_modifyBlock]
  | true => simp [commit, World.func?_modifyBlock, World.func?_newTemp, Function.comp_def]

theorem module_commit (s : BuildState) (x : Insertion) (givesValue : Bool) (name : String) (k : Nat) :
    ∃ funcs, (s.commit x givesValue name).world.module k = { s.world.module k with funcs } := by
  have hmodify (w : World) (f : FuncRef) (g : Func → Func) :
      ∃ funcs, (w.modifyFunc f g).module k = { w.module k with funcs } := by
    rw [World.module_modifyFunc]
    split
    · exact ⟨_, rfl⟩
    · exact ⟨(w.module k).funcs, rfl⟩
  cases givesValue with
  | false => exact hmodify _ _ _
  | true =>
    obtain ⟨funcs, h⟩ := hmodify s.world x.func fun _ =>
      ((s.world.func x.func).newTemp x.instr.type name).2
    obtain ⟨funcs', h'⟩ := hmodify (s.world.newTemp x.func x.instr.type name).2 x.block.func fun f =>
      { f with blocks := f.blocks.modify x.block.id (·.insert x.pos x.instr) }
    exact ⟨funcs', h'.trans (by rw [World.newTemp, h])⟩

theorem func?_commit_of_newTemp {fn : Func} {t : Temp} {uses : NameUses} {name : String}
    (hf : s.world.func? x.func = some fn)
    (hnew : (fn.newTemp x.instr.type name).2 = { fn with temps := fn.temps ++ [t], tempUses := uses })
    (givesValue : Bool) (g : FuncRef) :
    (s.commit x givesValue name).world.func? g = (s.world.func? g).map fun gn => { gn with
      blocks :=
        if g = x.block.func then gn.blocks.modify x.block.id (·.insert x.pos x.instr) else gn.blocks
      temps := if g = x.func then gn.temps ++ if givesValue then [t] else [] else gn.temps
      tempUses :=
        if g = x.func then if givesValue then uses else fn.tempUses else gn.tempUses } := by
  rw [func?_commit]
  cases hg : s.world.func? g with
  | none => rfl
  | some gn =>
    rw [Option.map_some, Option.map_some]
    by_cases he : g = x.func
    · subst he
      obtain rfl := Option.some.inj (hf.symm.trans hg)
      cases givesValue with
      | false => by_cases hb : x.func = x.block.func <;> simp [hb]
      | true => by_cases hb : x.func = x.block.func <;> simp [hb, hnew]
    · simp only [he, and_false, if_false]
      split
      · rfl
      · rfl

theorem Planned.adds (h : s.Planned i givesValue x block) (hr : i.result = none)
    (hf : (s.world.func? x.func).isSome) (name : String) :
    ∃ new uses, s.Adds x block new uses
      (if givesValue then some ((BuildM.valueOf (s.commit x givesValue name) x).getD {}) else none)
      (s.commit x givesValue name) := by
  obtain ⟨fn, hf⟩ := Option.isSome_iff_exists.1 hf
  obtain ⟨t, uses, hnew, ht⟩ := fn.newTemp_eq x.instr.type name
  have hfn : s.world.func x.func = fn := World.func_eq hf
  have hfuncs := func?_commit_of_newTemp hf hnew givesValue
  refine ⟨_, _, h.cursor, h.found, h.parent, h.place, h.pos, ?_, hfuncs, module_commit s x _ name, ?_⟩
  · obtain ⟨gn, hg, hb⟩ := World.func?_of_block? h.found
    have hg' := hfuncs x.block.func
    rw [hg, Option.map_some, if_pos rfl] at hg'
    rw [World.block?, World.func_eq hg', BlockList.get?_modify, if_pos rfl, hb, Option.map_some]
  · have hf' := hfuncs x.func
    rw [hf, Option.map_some, if_pos rfl] at hf'
    cases givesValue with
    | false => exact ⟨by rw [h.instr]; exact hr, rfl, by rw [hfn]; rfl⟩
    | true =>
      have hresult : x.instr.result = some fn.temps.length := by simp [h.instr, hfn]
      have hvalue : ∃ u, ((s.commit x true name).world.func x.func).tempValue? fn.temps.length =
          some u := by
        rw [World.func_eq hf', Func.tempValue?]
        simp
      obtain ⟨u, hu⟩ := hvalue
      refine ⟨t, rfl, ht, hfn ▸ hresult, ?_⟩
      rw [BuildM.valueOf, hresult, Option.bind_some, hfn, hu, Option.getD_some]

theorem Asks.func? (h : s.Asks s') (g : FuncRef) : s'.world.func? g = s.world.func? g := by
  rw [World.func?, World.func?, World.module_congr h.modules]

theorem Asks.block? (h : s.Asks s') (b : BlockRef) : s'.world.block? b = s.world.block? b := by
  rw [World.block?, World.block?, World.func, World.func, h.func?]

theorem Asks.adds {s'' : BuildState} {new : List Temp} {uses : NameUses} (h : s.Asks s')
    (h' : s'.Adds x block new uses v s'') : s.Adds x block new uses v s'' := by
  have hfunc (g : FuncRef) : s'.world.func g = s.world.func g := by
    rw [World.func, World.func, h.func?]
  refine ⟨h.builder ▸ h'.cursor, h.block? _ ▸ h'.found, h'.parent, h.builder ▸ h'.place, h'.pos,
    h'.inserted, fun g => h.func? g ▸ h'.funcs g, fun k => ?_, ?_⟩
  · rw [← World.module_congr h.modules]
    exact h'.rest k
  · rw [← hfunc]
    exact h'.value

theorem Inserts.adds (h : s.Inserts v s') (hmade : s.world.ParentsMade) :
    ∃ x block new uses, s.Adds x block new uses v s' := by
  cases h with
  | @insert s₁ i x givesValue name h hp hr _ =>
    obtain ⟨block, hplan⟩ := planned_of_plan hp
    have hf : (s₁.world.func? x.func).isSome := by
      rw [h.func?]
      exact hmade x.block block x.func (h.block? _ ▸ hplan.found) hplan.parent
    obtain ⟨new, uses, hadds⟩ := hplan.adds hr hf name
    exact ⟨x, block, new, uses, h.adds hadds⟩

end BuildState

/-- A call that fails leaves every module and the builder as they were. A call that builds an
instruction adds it at the cursor and a temporary for its value, and nothing else. -/
theorem BuildCall.isTransaction (c : BuildCall) (s : BuildState) :
    match c.run s with
    | .error _ s' => s'.world.modules = s.world.modules ∧ s'.builder = s.builder
    | .ok v s' => c.builds → s.world.ParentsMade →
      ∃ x block new uses, s.Adds x block new uses v s' := by
  cases hr : c.run s with
  | error e s' =>
    have h := c.outcome s
    rw [BuildM.Meets, hr] at h
    exact ⟨h.modules, h.builder⟩
  | ok v s' =>
    intro hc hmade
    have h := c.transacts hc s
    rw [BuildM.Transacts, BuildM.Meets, hr] at h
    exact h.adds hmade

def sketching : BuildState :=
  let block : BlockRef := ⟨⟨0, 0⟩, 0⟩
  let atEnd : Builder := { module := 0, cursor := ⟨some block, none⟩ }
  ⟨[.type 1 (.int 32), .build atEnd (.alloca ⟨1, 4⟩ none "slot"), .build atEnd .retVoid].foldl
    World.perform World.sketch, { atEnd with cursor := ⟨some block, some 1⟩ }⟩

theorem BuildCall.isTransaction_sketching :
    ∃ v s', (BuildCall.alloca ⟨1, 4⟩ none "spare").run sketching = .ok (some v) s' ∧
      sketching.world.ParentsMade ∧
      (sketching.world.block? ⟨⟨0, 0⟩, 0⟩).map (·.instrs.map (·.op)) = some [.alloca, .ret] ∧
      ∃ x block new uses, sketching.Adds x block new uses (some v) s' := by
  have hmade : sketching.world.ParentsMade := by
    dsimp only [sketching]
    exact (World.reachable_foldl (World.reachable_foldl .empty)).tidy_and_sound.1.parentsMade
  have hops : (sketching.world.block? ⟨⟨0, 0⟩, 0⟩).map (·.instrs.map (·.op)) = some [.alloca, .ret] := by
    decide
  have hok : (EStateM.run' (BuildCall.alloca ⟨1, 4⟩ none "spare").run sketching).join.isSome := by decide
  delta EStateM.run' EStateM.run at hok
  have h := isTransaction (.alloca ⟨1, 4⟩ none "spare") sketching
  cases hr : (BuildCall.alloca ⟨1, 4⟩ none "spare").run sketching with
  | error e s' => simp [hr] at hok
  | ok v s' =>
    cases v with
    | none => simp [hr] at hok
    | some v =>
      rw [hr] at h
      exact ⟨v, s', rfl, hmade, hops, h rfl hmade⟩

end TypedIR
