import TypedIR.Proofs.Building.Transaction

namespace TypedIR

def Cursor.advance (c : Cursor) (n : Nat) : Cursor := { c with before := c.before.map (· + n) }

/-- The cursor that a build is to leave: a terminator does not move it. -/
def Cursor.afterBuild (c : Cursor) (op : Opcode) : Cursor := if op.isTerminator then c else c.advance 1

theorem Cursor.advance_eq_self_iff {c : Cursor} {n : Nat} (hn : n ≠ 0) :
    c.advance n = c ↔ c.before = none := by
  obtain ⟨block, before⟩ := c
  cases before <;> simp [advance, hn]

theorem Cursor.advance_advance (c : Cursor) (n k : Nat) : (c.advance n).advance k = c.advance (n + k) := by
  simp [advance, Function.comp_def, Nat.add_assoc]

namespace BuildState

variable {s s' : BuildState} {b : BlockRef} {block : Block} {k : Nat} {i : Instr} {is : List Instr}
  {v : Option Value}

def lastBuilt? (s : BuildState) : Option Instr :=
  s.builder.last.bind fun r => (s.world.block? r.block).bind (·.instrs[r.index]?)

def anchor (s : BuildState) (block : Block) : Nat :=
  s.builder.cursor.before.getD block.instrs.length

structure Places (s : BuildState) (b : BlockRef) (block : Block) (i : Instr) (s' : BuildState) :
    Prop where
  cursor : s.builder.cursor.block = some b
  found : s.world.block? b = some block
  pos : s.anchor block ≤ block.instrs.length
  placement : block.checkPlacement i.op (s.anchor block) = .ok ()
  inserted : s'.world.block? b = some (block.insert (s.anchor block) i)
  last : s'.builder.last = some ⟨b, s.anchor block⟩
  moved : s'.builder.cursor = s.builder.cursor.advance 1

theorem block?_commit {x : Insertion} (hb : s.world.block? x.block = some block) (givesValue : Bool)
    (name : String) :
    (s.commit x givesValue name).world.block? x.block = some (block.insert x.pos x.instr) := by
  obtain ⟨fn, hf, hx⟩ := World.func?_of_block? hb
  obtain ⟨t, uses, hnew, -⟩ := fn.newTemp_eq x.instr.type name
  have hf' := func?_commit s x givesValue name x.block.func
  rw [hf, Option.map_some, if_pos rfl] at hf'
  rw [World.block?, World.func_eq hf', BlockList.get?_modify, if_pos rfl]
  split
  · rw [hnew, hx, Option.map_some]
  · rw [hx, Option.map_some]

theorem Planned.places {givesValue : Bool} {x : Insertion} (h : s.Planned i givesValue x block)
    (name : String) : s.Places x.block block x.instr (s.commit x givesValue name) where
  cursor := h.cursor
  found := h.found
  pos := by
    rw [anchor, ← h.place]
    exact h.pos
  placement := by
    rw [anchor, ← h.place]
    exact h.placement
  inserted := by
    rw [anchor, ← h.place]
    exact block?_commit h.found givesValue name
  last := by
    rw [anchor, ← h.place]
    rfl
  moved := by
    rw [Cursor.advance]
    simp only [commit, h.place]
    cases s.builder.cursor.before <;> rfl

theorem Asks.places {s'' : BuildState} (h : s.Asks s') (h' : s'.Places b block i s'') :
    s.Places b block i s'' := by
  have ha : s'.anchor block = s.anchor block := by rw [anchor, anchor, h.builder]
  exact ⟨h.builder ▸ h'.cursor, h.block? b ▸ h'.found, ha ▸ h'.pos, ha ▸ h'.placement, ha ▸ h'.inserted,
    ha ▸ h'.last, h.builder ▸ h'.moved⟩

theorem Inserts.places (h : s.Inserts v s') : ∃ b block i, s.Places b block i s' := by
  cases h with
  | insert givesValue name h hp _ _ =>
    obtain ⟨block, hplan⟩ := planned_of_plan hp
    exact ⟨_, block, _, h.places (hplan.places name)⟩

namespace Places

variable (h : s.Places b block i s')
include h

theorem lastBuilt? : s'.lastBuilt? = some i := by
  have hk : (block.instrs.take (s.anchor block)).length = s.anchor block :=
    List.length_take_of_le h.pos
  rw [BuildState.lastBuilt?, h.last, Option.bind_some, h.inserted, Option.bind_some, Block.insert,
    List.getElem?_append_right (Nat.le_of_eq hk), hk, Nat.sub_self, List.getElem?_cons_zero]

theorem cursor_eq_iff : s'.builder.cursor = s.builder.cursor.afterBuild i.op ↔
    (i.op.isTerminator → s.builder.cursor.before = none) := by
  rw [h.moved, Cursor.afterBuild]
  by_cases ht : i.op.isTerminator
  · simp [ht, Cursor.advance_eq_self_iff]
  · simp [ht]

end Places

/-- The builder builds instructions, and meanwhile nobody moves its cursor or writes into the block. What
is done elsewhere and calls that fail come in between. -/
inductive Fills (s : BuildState) (b : BlockRef) : List Instr → BuildState → Prop
  | start : s.Fills b [] s
  | build {is : List Instr} {i : Instr} {v : Option Value} {s₁ s₂ : BuildState} (c : BuildCall)
    (h : s.Fills b is s₁) (hc : c.builds) (hr : c.run s₁ = .ok v s₂) (hi : s₂.lastBuilt? = some i) :
    s.Fills b (is ++ [i]) s₂
  | elsewhere {is : List Instr} {s₁ s₂ : BuildState} (h : s.Fills b is s₁)
    (hcursor : s₂.builder.cursor = s₁.builder.cursor)
    (hb : (s₂.world.block? b).map (·.instrs) = (s₁.world.block? b).map (·.instrs)) :
    s.Fills b is s₂

/-- What was built stands in the block in its order, where the cursor was. -/
structure Filled (s : BuildState) (b : BlockRef) (is : List Instr) (s' : BuildState) : Prop where
  cursor : s'.builder.cursor = s.builder.cursor.advance is.length
  block : ∀ x, s.world.block? b = some x → is ≠ [] → s.anchor x ≤ x.instrs.length
  instrs : ∀ x, s.world.block? b = some x → (s'.world.block? b).map (·.instrs) =
    some (x.instrs.take (s.anchor x) ++ is ++ x.instrs.drop (s.anchor x))

end BuildState

theorem BuildCall.places_of_run {c : BuildCall} {s s' : BuildState} {v : Option Value} (hc : c.builds)
    (hr : c.run s = .ok v s') : ∃ b block i, s.Places b block i s' := by
  have h := c.transacts hc s
  rw [BuildM.Transacts, BuildM.Meets, hr] at h
  exact h.places

namespace BuildState

variable {s s' : BuildState} {b : BlockRef} {is : List Instr}

theorem Filled.anchor_eq {x y : Block} (h : s.Filled b is s') (hx : s.world.block? b = some x)
    (hy : s'.world.block? b = some y) (hpos : s'.anchor y ≤ y.instrs.length) :
    s.anchor x ≤ x.instrs.length ∧ s'.anchor y = s.anchor x + is.length := by
  have hinstrs := h.instrs x hx
  rw [hy, Option.map_some, Option.some.injEq] at hinstrs
  have hlen := congrArg List.length hinstrs
  simp only [List.length_append, List.length_take, List.length_drop] at hlen
  simp only [anchor, h.cursor, Cursor.advance] at hpos hlen ⊢
  cases hbefore : s.builder.cursor.before with
  | none =>
    simp only [hbefore, Option.map_none, Option.getD_none] at hlen ⊢
    omega
  | some k =>
    simp only [hbefore, Option.map_some, Option.getD_some, and_true] at hlen hpos ⊢
    omega

theorem Fills.filled (h : s.Fills b is s') (hb : s.builder.cursor.block = some b) :
    s.Filled b is s' := by
  induction h with
  | start =>
    refine ⟨?_, fun _ _ hne => absurd rfl hne, fun x hx => ?_⟩
    · simp [Cursor.advance]
    · simp [hx]
  | elsewhere _ hcursor hinstrs ih =>
    exact ⟨hcursor.trans ih.cursor, ih.block, fun x hx => hinstrs.trans (ih.instrs x hx)⟩
  | @build is i v s₁ s₂ c _ hc hr hi ih =>
    obtain ⟨b', block, j, hp⟩ := BuildCall.places_of_run hc hr
    obtain rfl : j = i := Option.some.inj (hp.lastBuilt?.symm.trans hi)
    obtain rfl : b = b' := by
      have hcursor := hp.cursor
      rw [ih.cursor, Cursor.advance, hb] at hcursor
      exact Option.some.inj hcursor
    -- The block was there from the beginning, for a build finds it.
    have hplace {x : Block} (hx : s.world.block? b = some x) := ih.anchor_eq hx hp.found hp.pos
    refine ⟨?_, fun x hx _ => (hplace hx).1, fun x hx => ?_⟩
    · rw [hp.moved, ih.cursor, Cursor.advance_advance, List.length_append, List.length_singleton]
    · obtain ⟨hk, hanchor⟩ := hplace hx
      have hinstrs := ih.instrs x hx
      rw [hp.found, Option.map_some, Option.some.injEq] at hinstrs
      have hlen : (x.instrs.take (s.anchor x) ++ is).length = s.anchor x + is.length := by
        rw [List.length_append, List.length_take_of_le hk]
      rw [hp.inserted, Option.map_some, Block.insert, hanchor, hinstrs, List.take_left' hlen,
        List.drop_left' hlen]
      simp only [List.append_assoc, List.singleton_append]

/-- Whatever a builder builds, its anchor goes along with the instruction before which it stands. So the
cursor is left where it is to be left but if it had an anchor when a terminator was built, and what is
built in a row stands in a row before the instruction that the cursor stood before. -/
theorem cursor_of_builds (s : BuildState) :
    (∀ (c : BuildCall) (v : Option Value) (s' : BuildState), c.builds → c.run s = .ok v s' →
      ∃ i, s'.lastBuilt? = some i ∧ s'.builder.cursor = s.builder.cursor.advance 1 ∧
        (s'.builder.cursor = s.builder.cursor.afterBuild i.op ↔
          (i.op.isTerminator → s.builder.cursor.before = none))) ∧
    ∀ (b : BlockRef) (is : List Instr) (s' : BuildState), s.builder.cursor.block = some b →
      s.Fills b is s' → s.Filled b is s' := by
  refine ⟨fun c v s' hc hr => ?_, fun b is s' hb h => h.filled hb⟩
  obtain ⟨_, _, i, h⟩ := BuildCall.places_of_run hc hr
  exact ⟨i, h.lastBuilt?, h.moved, h.cursor_eq_iff⟩

theorem run_eq_ok {c : BuildCall} (h : (EStateM.run' c.run s).isSome) :
    ∃ v, c.run s = .ok v (c.after s) := by
  delta EStateM.run' EStateM.run at h
  rw [BuildCall.after, BuildM.after]
  cases hr : c.run s with
  | ok v s' => exact ⟨v, rfl⟩
  | error e s' => simp [hr] at h

def loadSlot (name : String) : BuildCall := .load ⟨1, 4⟩ (.result ⟨1, 3⟩ 0 1) name

theorem cursor_of_builds_sketching : ∃ is s', sketching.Fills ⟨⟨0, 0⟩, 0⟩ is s' ∧
    sketching.Filled ⟨⟨0, 0⟩, 0⟩ is s' ∧ is.map (·.op) = [.load, .load] ∧
    s'.builder.cursor.before = some 3 ∧
    (s'.world.block? ⟨⟨0, 0⟩, 0⟩).map (·.instrs.map (·.op)) = some [.alloca, .load, .load, .ret] := by
  obtain ⟨u, hu⟩ := run_eq_ok (c := loadSlot "x") (s := sketching) (by decide)
  obtain ⟨v, hv⟩ := run_eq_ok (c := loadSlot "y") (s := (loadSlot "x").after sketching) (by decide)
  obtain ⟨i, hi, -⟩ := (cursor_of_builds sketching).1 _ _ _ rfl hu
  obtain ⟨j, hj, -⟩ := (cursor_of_builds _).1 _ _ _ rfl hv
  have hfills := ((Fills.start (b := ⟨⟨0, 0⟩, 0⟩)).build _ rfl hu hi).build _ rfl hv hj
  refine ⟨_, _, hfills, (cursor_of_builds sketching).2 _ _ _ rfl hfills, ?_, by decide, by decide⟩
  have hops : [((loadSlot "x").after sketching).lastBuilt?.map (·.op),
      ((loadSlot "y").after ((loadSlot "x").after sketching)).lastBuilt?.map (·.op)] =
        [some .load, some .load] := by decide
  simpa [hi, hj] using hops

theorem not_cursor_of_builds : ¬ ∀ (s s' : BuildState) (c : BuildCall) (v : Option Value) (i : Instr),
    c.builds → c.run s = .ok v s' → s'.lastBuilt? = some i →
      s'.builder.cursor = s.builder.cursor.afterBuild i.op := by
  intro h
  let s : BuildState := ⟨World.sketch, { module := 0, cursor := ⟨some ⟨⟨0, 0⟩, 0⟩, some 0⟩ }⟩
  obtain ⟨v, hv⟩ := run_eq_ok (c := .retVoid) (s := s) (by decide)
  obtain ⟨_, _, i, hp⟩ := BuildCall.places_of_run rfl hv
  have hret : (BuildCall.retVoid.after s).lastBuilt?.map (·.op) = some .ret := by decide
  rw [hp.lastBuilt?, Option.map_some, Option.some.injEq] at hret
  have hnone := hp.cursor_eq_iff.1 (h _ _ _ _ _ rfl hv hp.lastBuilt?) (by rw [hret]; rfl)
  cases hnone

end BuildState

end TypedIR
