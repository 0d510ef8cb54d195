import TypedIR.Proofs.Certificate.Stability
import TypedIR.Proofs.Constant.Integers
import TypedIR.Proofs.Disposal.Operations

namespace TypedIR

def Operation.number? : Operation → Option Int
  | .constant _ _ .zero => some 0
  | .constant _ _ call => call.integer?
  | .bool _ b => some (if b then 1 else 0)
  | _ => none

structure Instr.HasCases (i : Instr) (scrutinee : Value) (default : Option BlockRef)
    (cases : List (Value × Option BlockRef)) : Prop where
  operands : i.operands = scrutinee :: cases.map Prod.fst
  targets : i.targets = default :: cases.map Prod.snd

namespace World

inductive Spells (n : Nat) (x : Int) (v : Value) : World → Prop
  | answer {w : World} (h : w.Arises) (o : Operation) (ha : w.answer? o = some (n, v))
    (hx : o.number? = some x) : Spells n x v (w.perform o)
  | perform {w : World} (h : Spells n x v w) (o : Operation) : Spells n x v (w.perform o)
  | write {w : World} (h : Spells n x v w) (m : Nat) (y : Module) : Spells n x v (w.setModule m y)

def casesOf (w : World) (n : Nat) (cases : List (Value × Option BlockRef)) (x : Nat) :
    List (Value × Option BlockRef) :=
  cases.filter fun e => (w.context n).content? e.1 = some (.int x)

/-- Cases that leave no choice to a number of the scrutinee's width. -/
structure Decides (w : World) (n : Nat) (scrutinee : Value) (cases : List (Value × Option BlockRef))
    (width : Nat) : Prop where
  type : (w.context n).types.lookup scrutinee.type = some (.int width)
  numbers : ∀ e ∈ cases, e.1.type = scrutinee.type ∧
    ∃ x, (w.context n).content? e.1 = some (.int x) ∧ x < 2 ^ width
  distinct : (cases.map fun e => (w.context n).content? e.1).Nodup
  spellings : ∀ (j k : Nat) e e' x y, cases[j]? = some e → cases[k]? = some e' →
    w.Spells n x e.1 → w.Spells n y e'.1 → (x ≡ y [ZMOD 2 ^ width] ↔ j = k)
  select : ∀ x, (w.casesOf n cases x).length ≤ 1

/-- A switch that sends every number of its scrutinee one way at most, the default apart. -/
def Deterministic (w : World) (n : Nat) (i : Instr) : Prop :=
  ∃ scrutinee default cases width, i.HasCases scrutinee default cases ∧
    w.Decides n scrutinee cases width

variable {w : World} {n k m : Nat} {f : FuncRef} {i : Instr} {v : Value} {x : Int}

theorem Arises.context_induction {P : Context → Prop} (h : w.Arises) (hgone : P default)
    (hnew : ∀ k limit traces, P (.new k limit traces)) (hstep : ∀ c vs c', P c → c.Steps vs c' → P c')
    (hdispose : ∀ c, P c → P c.dispose) (k : Nat) : P (w.context k) := by
  induction h with
  | empty => cases k <;> exact hgone
  | @perform w _ o ih =>
    by_cases hk : k ≤ w.contexts.length
    · rcases context_perform w o hk with ⟨vs, hs, -⟩ | ⟨-, he⟩
      · exact hstep _ vs _ ih hs
      · exact he ▸ hdispose _ ih
    · by_cases hk' : k ≤ (w.perform o).contexts.length
      · obtain ⟨limit, traces, he⟩ := context_perform_of_lt (Nat.lt_of_not_le hk) hk'
        exact he ▸ hnew k limit traces
      · obtain ⟨k, rfl⟩ := Nat.exists_eq_succ_of_ne_zero (n := k) (by omega)
        rwa [context, List.getD_eq_getElem?_getD, List.getElem?_eq_none (by omega)]
  | write _ m y ih => rwa [context_setModule]

theorem Arises.wellFormed (h : w.Arises) (k : Nat) :
    (w.context k).constants.WellFormed (w.context k).types :=
  h.context_induction (P := fun c => c.constants.WellFormed c.types) (wellFormed_nil _)
    (fun _ _ _ => wellFormed_nil _) (fun _ _ _ hc hs => hs.wellFormed hc) (fun _ _ => wellFormed_nil _) k

theorem Arises.live_of_content? (h : w.Arises) {content : Content}
    (hv : (w.context n).content? v = some content) : (w.context n).isDisposed = false := by
  have hempty : (w.context n).isDisposed → (w.context n).constants = {} := by
    refine h.context_induction (P := fun c => c.isDisposed → c.constants = {}) (fun _ => rfl)
      (fun _ _ _ _ => rfl) (fun c vs c' hc hs => ?_) (fun _ _ _ => rfl) n
    induction hs with
    | refl => exact hc
    | type _ call ih => exact fun hd => ih ((call.keeps_request.grows _).disposed.symm.trans hd)
    | constant _ hr => exact fun hd => nomatch hd.symm.trans (ConstantPool.of_request hr).1
    | names _ _ ih | counts _ _ _ ih => exact ih
  by_contra hd
  simp [Context.content?, Context.lookupConstant, hempty (by simpa using hd), ConstantPool.lookup] at hv

namespace Spells

theorem arises (h : Spells n x v w) : w.Arises := by
  induction h with
  | answer h o => exact h.perform o
  | perform _ o ih => exact ih.perform o
  | write _ m y ih => exact ih.write m y

theorem le_length (h : Spells n x v w) : n ≤ w.contexts.length := by
  induction h with
  | answer _ o ha =>
    obtain ⟨hl, hlen, -⟩ := steps_of_answer ha
    exact hlen ▸ (valid_of_live hl).2
  | perform _ o ih => exact Nat.le_trans ih (advances_perform _ o).grows.contextCount
  | write _ _ _ ih => exact ih

theorem foldl {os : List Operation} (h : Spells n x v w) : Spells n x v (os.foldl World.perform w) := by
  induction os generalizing w with
  | nil => exact h
  | cons o os ih => exact ih (h.perform o)

theorem content? (h : Spells n x v w) (hl : (w.context n).isDisposed = false) :
    ∃ d, (w.context n).types.lookup v.type = some d ∧ ∀ width, d = .int width →
      (w.context n).content? v = some (.int (x % 2 ^ width).toNat) := by
  induction h with
  | @answer w h o ha hx =>
    obtain ⟨hl₀, -, -⟩ := steps_of_answer ha
    cases o with
    | constant k t call =>
      obtain ⟨rfl, constants, hq, he⟩ := of_answer_constant ha
      obtain ⟨-, d, payload, hd, -⟩ := ConstantPool.of_request hq
      obtain ⟨rfl, hcontent⟩ := Context.content?_of_request hq hd
      rw [he, context_setContext, if_pos ⟨rfl, valid_of_live hl₀⟩]
      refine ⟨d, hd, fun width hwidth => hcontent.trans ?_⟩
      subst hwidth
      cases call with
      | zero =>
        obtain rfl := Option.some.inj hx
        simp [ConstantCall.content]
      | _ => exact congrArg some (content_of_integer? hx)
    | bool k b =>
      obtain ⟨rfl, c, hc, he⟩ := of_answer_bool ha
      obtain ⟨t, constants, ht, hu, rfl⟩ := Context.of_bool hc
      obtain rfl := Option.some.inj hx
      rw [he, context_setContext, if_pos ⟨rfl, valid_of_live hl₀⟩]
      obtain ⟨rfl, hcontent⟩ := Context.content?_of_request
        (c := { w.context n with types := TypeRequest.after (TypeRequest.int 1) (w.context n).types })
        hu ht
      refine ⟨_, ht, fun width hwidth => hcontent.trans ?_⟩
      obtain rfl := TypeDesc.int.inj hwidth
      cases b <;> rfl
    | _ => simp [Operation.number?] at hx
  | @perform w h o ih =>
    obtain ⟨vs, hs, -⟩ := steps_perform w o h.le_length hl
    obtain ⟨d, hd, hcontent⟩ := ih (hs.grows.isDisposed.symm.trans hl)
    obtain ⟨d', hd', href⟩ := hs.grows.types.lookup _ d hd
    refine ⟨d', hd', fun width hwidth => ?_⟩
    subst hwidth
    cases href with
    | refl => exact hs.grows.content? (h.arises.wellFormed n) (hcontent width rfl)
  | write _ m y ih =>
    rw [context_setModule] at hl ⊢
    exact ih hl

end Spells

section Cases

variable {c : Context} {scrutinee : Value} {cases : List (Value × Option BlockRef)} {width : Nat}

theorem exists_cases_of_checkSwitch (h : i.checkSwitch c = .ok ()) :
    ∃ scrutinee default cases, i.HasCases scrutinee default cases ∧
      c.types.isIntRef scrutinee.type ∧
      (∀ e ∈ cases, Instr.IsIntLiteral c e.1 ∧ e.1.type = scrutinee.type) ∧
      (cases.map (·.1.id)).Nodup := by
  obtain ⟨scrutinee, values, hops, hint, hlen, hcases⟩ := Instr.checkSwitch_iff.1 h
  obtain ⟨hvalues, hids⟩ := Instr.checkCases_iff.1 hcases
  rw [hops, List.length_cons] at hlen
  obtain ⟨default, targets, htargets⟩ := List.exists_cons_of_length_eq_add_one hlen
  have hlen : values.length = targets.length := by simpa [htargets, eq_comm] using hlen
  have hfst : (values.zip targets).map Prod.fst = values := List.map_fst_zip (Nat.le_of_eq hlen)
  have hsnd : (values.zip targets).map Prod.snd = targets := List.map_snd_zip (Nat.le_of_eq hlen.symm)
  refine ⟨scrutinee, default, values.zip targets, ⟨by rw [hops, hfst], by rw [htargets, hsnd]⟩, hint,
    fun e he => ?_, ?_⟩
  · obtain ⟨hliteral, htype, -⟩ := hvalues e.1 (hfst ▸ List.mem_map_of_mem he)
    exact ⟨hliteral, htype⟩
  · rwa [← hfst, List.map_map] at hids

theorem exists_content?_of_isIntLiteral (hc : c.constants.WellFormed c.types)
    (hv : Instr.IsIntLiteral c v) (ht : c.types.lookup v.type = some (.int width)) :
    ∃ y, c.content? v = some (.int y) ∧ y < 2 ^ width := by
  obtain ⟨t, bits, negative, hk⟩ := hv
  have hx := Context.content?_eq_some_iff.2 ⟨_, hk, rfl⟩
  obtain ⟨width', ht', hlt⟩ := Context.lt_of_content?_eq_int hc hx
  obtain rfl : width = width' := by simpa [ht] using ht'
  exact ⟨_, hx, hlt⟩

theorem nodup_content?_of_nodup_id (hc : c.constants.WellFormed c.types)
    (hcases : ∀ e ∈ cases, Instr.IsIntLiteral c e.1 ∧ e.1.type = scrutinee.type)
    (hids : (cases.map (·.1.id)).Nodup) : (cases.map fun e => c.content? e.1).Nodup := by
  refine List.Nodup.map_on (fun e he e' he' h => ?_) (.of_map _ hids)
  refine List.inj_on_of_nodup_map hids he he' ?_
  obtain ⟨⟨t, bits, negative, hk⟩, ht⟩ := hcases e he
  obtain ⟨⟨t', bits', negative', hk'⟩, ht'⟩ := hcases e' he'
  obtain ⟨-, -, hpos, hentry, htype⟩ := ConstantPool.lookup_eq_some_iff.1 hk
  obtain ⟨-, -, hpos', hentry', htype'⟩ := ConstantPool.lookup_eq_some_iff.1 hk'
  have hcontent := Option.some.inj ((Context.content?_eq_some_iff.2 ⟨_, hk, rfl⟩).symm.trans
    (h.trans (Context.content?_eq_some_iff.2 ⟨_, hk', rfl⟩)))
  -- Of one type there is one constant of a content.
  have hid := hc.eq_of_content_eq hentry hentry' (by rw [htype, htype', ht, ht']) hcontent
  omega

theorem length_filter_le_one {α β : Type} [DecidableEq β] {g : α → β} {xs : List α}
    (h : (xs.map g).Nodup) (b : β) : (xs.filter fun a => g a = b).length ≤ 1 := by
  have hcount := List.nodup_iff_count_le_one.1 h b
  rw [List.count, List.countP_map] at hcount
  rwa [← List.countP_eq_length_filter]

theorem Arises.decides (h : w.Arises)
    (ht : (w.context n).types.lookup scrutinee.type = some (.int width))
    (hnumbers : ∀ e ∈ cases, e.1.type = scrutinee.type ∧
      ∃ x, (w.context n).content? e.1 = some (.int x) ∧ x < 2 ^ width)
    (hdistinct : (cases.map fun e => (w.context n).content? e.1).Nodup) :
    w.Decides n scrutinee cases width := by
  refine ⟨ht, hnumbers, hdistinct, fun j k e e' x y hj hk hx hy => ?_,
    fun x => length_filter_le_one hdistinct _⟩
  -- However a number was spelled, its constant stands for the residue in the width.
  have hspelled {z : Int} {e : Value × Option BlockRef} (hz : w.Spells n z e.1) (he : e ∈ cases) :
      (w.context n).content? e.1 = some (.int (z % 2 ^ width).toNat) := by
    obtain ⟨htype, content, hcontent, -⟩ := hnumbers e he
    obtain ⟨d, hd, hz⟩ := hz.content? (h.live_of_content? hcontent)
    exact hz width (Option.some.inj (hd.symm.trans (htype ▸ ht)))
  have hsame : j = k ↔ (w.context n).content? e.1 = (w.context n).content? e'.1 := by
    have hlt : j < (cases.map fun e => (w.context n).content? e.1).length := by
      simpa using (List.getElem?_eq_some_iff.1 hj).1
    rw [← List.getElem?_inj hlt hdistinct, List.getElem?_map, List.getElem?_map, hj, hk,
      Option.map_some, Option.map_some, Option.some.injEq]
  rw [hsame, hspelled hx (List.mem_of_getElem? hj), hspelled hy (List.mem_of_getElem? hk),
    Option.some.injEq, Content.int.injEq, Int.ModEq]
  have hnonneg (z : Int) : 0 ≤ z % 2 ^ width := Int.emod_nonneg z (by positivity)
  have := hnonneg x
  have := hnonneg y
  omega

end Cases

theorem Arises.deterministic_of_checkSwitch (h : w.Arises)
    (hi : i.checkSwitch (w.context n) = .ok ()) : w.Deterministic n i := by
  obtain ⟨scrutinee, default, cases, hlayout, hint, hcases, hids⟩ := exists_cases_of_checkSwitch hi
  obtain ⟨d, hd, hisInt⟩ := (Option.any_eq_true _ _).1 hint
  cases d with
  | int width =>
    refine ⟨scrutinee, default, cases, width, hlayout, h.decides hd (fun e he => ?_)
      (nodup_content?_of_nodup_id (h.wellFormed n) hcases hids)⟩
    obtain ⟨hliteral, htype⟩ := hcases e he
    exact ⟨htype, exists_content?_of_isIntLiteral (h.wellFormed n) hliteral (htype ▸ hd)⟩
  | _ => simp [TypeDesc.isInt] at hisInt

theorem checkSwitch_of_checkInstr (hop : i.op = .switch) (hi : w.checkInstr m f i = .ok ()) :
    i.checkSwitch (w.contextOf m) = .ok () := by
  have hrule := (checkInstr_eq_ok_iff.1 hi).2.2
  simpa only [Instr.checkRule, hop, Opcode.category, Instr.checkTerminator] using hrule

end World

namespace BuildM

variable {s s' : BuildState} {i : Instr}

theorem of_insertVoid_eq_ok (h : insertVoid i s = .ok () s') : ∃ t s₁ x,
    (request .void).after s = s₁ ∧ s₁.plan { i with type := t } false = .ok x ∧
      s' = s₁.commit x false "" := by
  simp only [insertVoid, Bind.bind, EStateM.bind] at h
  cases hr : request .void s with
  | error e s₁ => simp [hr] at h
  | ok t s₁ =>
    simp only [hr, insert] at h
    cases hp : s₁.plan { i with type := t } false with
    | error e => simp [hp] at h
    | ok x =>
      simp only [hp, EStateM.Result.ok.injEq, true_and] at h
      exact ⟨t, s₁, x, by simp [after, hr], hp, h.symm⟩

end BuildM

namespace World

variable {w : World}

theorem Arises.deterministic_of_build (h : w.Arises) {b : Builder} {scrutinee : Value}
    {default : BlockRef} {cases : List (Value × Option BlockRef)} {s' : BuildState}
    (hs : BuildM.switch scrutinee default cases ⟨w, b⟩ = .ok () s') :
    s'.world.Deterministic (w.module b.module).context {
      op := .switch
      operands := scrutinee :: cases.map Prod.fst
      targets := some default :: cases.map Prod.snd } := by
  have hworld : s'.world.Arises := by
    have hafter := h.perform (.build b (.switch scrutinee default cases))
    rwa [World.perform, BuildCall.after, BuildCall.run, BuildM.after_map, BuildM.after, hs] at hafter
  obtain ⟨t, s₁, x, hr, hp, rfl⟩ := BuildM.of_insertVoid_eq_ok hs
  obtain ⟨block, hplan⟩ := BuildState.planned_of_plan hp
  have hasks : BuildState.Asks ⟨w, b⟩ s₁ := hr ▸ BuildM.onlyAsks_request .void
  have hcontext : s₁.context = (s₁.commit x false "").world.context (w.module b.module).context := by
    rw [BuildState.context, contextOf, hasks.module, hasks.builder]
    exact context_congr rfl _
  have hinstr := checkSwitch_of_checkInstr (by rw [hplan.instr]) hplan.typing
  rw [hplan.instr] at hinstr
  exact hworld.deterministic_of_checkSwitch (hcontext ▸ hinstr)

/-- Whatever is written into modules, a switch that is found well typed sends every number of its
scrutinee one way: each switch that is built and each one of a verified module. -/
theorem Arises.deterministic (h : w.Arises) (m : Nat) :
    (∀ f i, i.op = .switch → w.checkInstr m f i = .ok () →
      w.Deterministic (w.module m).context i) ∧
    (∀ c, w.verify m = .ok c → ∀ f ∈ w.funcRefs m, ∀ s ∈ w.sites f, s.instr.op = .switch →
      w.Deterministic (w.module m).context s.instr) ∧
    ∀ (b : Builder) scrutinee default cases s', b.module = m →
      BuildM.switch scrutinee default cases ⟨w, b⟩ = .ok () s' →
        s'.world.Deterministic (w.module m).context {
          op := .switch
          operands := scrutinee :: cases.map Prod.fst
          targets := some default :: cases.map Prod.snd } := by
  have hchecked (f : FuncRef) (i : Instr) (hop : i.op = .switch)
      (hi : w.checkInstr m f i = .ok ()) : w.Deterministic (w.module m).context i :=
    h.deterministic_of_checkSwitch (checkSwitch_of_checkInstr hop hi)
  refine ⟨hchecked, fun c hc f hf s hs hop => ?_, fun b scrutinee default cases s' hb hs => ?_⟩
  · exact hchecked f s.instr hop ((verify_eq_ok_iff.1 hc).1.typing f hf s hs)
  · exact hb ▸ h.deterministic_of_build hs

def byteCases : List (Value × Option BlockRef) :=
  [(.const ⟨1, 1⟩ 1 1, some ⟨⟨0, 0⟩, 1⟩), (.const ⟨1, 1⟩ 2 1, some ⟨⟨0, 0⟩, 1⟩),
    (.const ⟨1, 1⟩ 3 1, some ⟨⟨0, 0⟩, 2⟩)]

def ofByte : World :=
  [.newContext 64 false, .newModule 1 "m", .type 1 (.int 8), .type 1 .void,
    .type 1 (.fn ⟨1, 2⟩ [⟨1, 1⟩] false), .declareFunc 0 "f" ⟨1, 3⟩ .exported].foldl perform {}

def routing : World :=
  [.constant 1 ⟨1, 1⟩ (.unsigned 254), .constant 1 ⟨1, 1⟩ .zero,
    .build { module := 0 } (.appendBlock ⟨0, 0⟩ "entry"),
    .build { module := 0 } (.appendBlock ⟨0, 0⟩ "low"),
    .build { module := 0 } (.appendBlock ⟨0, 0⟩ "high"),
    .build { module := 0, cursor := { block := some ⟨⟨0, 0⟩, 1⟩ } } .retVoid,
    .build { module := 0, cursor := { block := some ⟨⟨0, 0⟩, 2⟩ } } .unreachable].foldl perform
    (ofByte.perform (.constant 1 ⟨1, 1⟩ (.signed (-1))))

def atEntry : Builder where
  module := 0
  cursor := { block := some ⟨⟨0, 0⟩, 0⟩ }

def routed : World :=
  routing.perform (.build atEntry (.switch (.param ⟨1, 1⟩ 0 1) ⟨⟨0, 0⟩, 2⟩ byteCases))

theorem deterministic_routed : routing.Arises ∧ routing.Spells 1 (-1) (.const ⟨1, 1⟩ 1 1) ∧
    (∃ s', BuildM.switch (.param ⟨1, 1⟩ 0 1) ⟨⟨0, 0⟩, 2⟩ byteCases ⟨routing, atEntry⟩ = .ok () s' ∧
      s'.world.Deterministic 1 {
        op := .switch
        operands := .param ⟨1, 1⟩ 0 1 :: byteCases.map Prod.fst
        targets := some ⟨⟨0, 0⟩, 2⟩ :: byteCases.map Prod.snd }) ∧
    routed.verify 0 = .ok (routed.certificate 0) ∧
    (routed.context 1).content? (.const ⟨1, 1⟩ 1 1) = some (.int 255) ∧
    ∃ s ∈ routed.sites ⟨0, 0⟩, s.instr.op = .switch ∧ routed.checkInstr 0 ⟨0, 0⟩ s.instr = .ok () ∧
      routed.Deterministic 1 s.instr := by
  have hbyte : ofByte.Reachable := reachable_foldl .empty
  have hr : routing.Arises := (reachable_foldl (hbyte.perform _)).arises
  have ha : ofByte.answer? (.constant 1 ⟨1, 1⟩ (.signed (-1))) = some (1, .const ⟨1, 1⟩ 1 1) := by
    decide
  have hspelled : (ofByte.perform (.constant 1 ⟨1, 1⟩ (.signed (-1)))).Spells 1 (-1)
      (.const ⟨1, 1⟩ 1 1) := .answer hbyte.arises _ ha (by decide)
  have hspells : routing.Spells 1 (-1) (.const ⟨1, 1⟩ 1 1) := hspelled.foldl
  have hfirst : (routed.context 1).content? (.const ⟨1, 1⟩ 1 1) = some (.int 255) := by cbv
  have hv : routed.verify 0 = .ok (routed.certificate 0) :=
    verify_eq_ok_iff.2 ⟨violations_eq_nil_iff.1 (by cbv), rfl⟩
  have hfuncs : routed.funcRefs 0 = [⟨0, 0⟩] := by cbv
  have hf : (⟨0, 0⟩ : FuncRef) ∈ routed.funcRefs 0 := hfuncs ▸ List.mem_cons_self
  have hops : (routed.sites ⟨0, 0⟩).map (·.instr.op) = [.switch, .ret, .unreachable] := by cbv
  obtain ⟨s, hs, hop⟩ := List.mem_map.1 (hops ▸ List.mem_cons_self)
  have hi := (verify_eq_ok_iff.1 hv).1.typing _ hf s hs
  have hdet : routed.Deterministic (routed.module 0).context s.instr :=
    (Arises.deterministic (hr.perform _) 0).2.1 _ hv _ hf s hs hop
  have hcontext : (routed.module 0).context = 1 := by cbv
  refine ⟨hr, hspells, ?_, hv, hfirst, s, hs, hop, hi, hcontext ▸ hdet⟩
  cases hbuilt : BuildM.switch (.param ⟨1, 1⟩ 0 1) ⟨⟨0, 0⟩, 2⟩ byteCases ⟨routing, atEntry⟩ with
  | error e s' =>
    have hok : (EStateM.run' (BuildM.switch (.param ⟨1, 1⟩ 0 1) ⟨⟨0, 0⟩, 2⟩ byteCases)
      ⟨routing, atEntry⟩).isSome := by cbv
    simp [EStateM.run', EStateM.run, hbuilt] at hok
  | ok v s' =>
    have hdet := (hr.deterministic 0).2.2 _ _ _ _ s' rfl hbuilt
    have hcontext : (routing.module 0).context = 1 := by cbv
    rw [hcontext] at hdet
    exact ⟨s', rfl, hdet⟩

end World

end TypedIR
