import TypedIR.Proofs.Declaration.Places
import TypedIR.Proofs.Operation.Numbers

namespace TypedIR

/-- Values that differ at most in the flag that tells functions from globals. -/
structure Value.Agrees (u v : Value) : Prop where
  kind : u.kind = v.kind
  type : u.type = v.type
  id : u.id = v.id
  scope : u.scope = v.scope

variable {u v : Value}

theorem Func.names_iff {f : Func} (hk : v.kind = .result ∨ v.kind = .param) :
    f.Names v ↔ ∃ i u, f.tempValue? i = some u ∧ u.Agrees v := by
  constructor
  · rintro ⟨hscope, ⟨t, ht, htype⟩, hparam⟩
    refine ⟨v.id, _, by rw [tempValue?, ht, Option.map_some], ?_⟩
    by_cases hp : v.id < f.params.length
    · rw [if_pos hp]
      exact ⟨(hparam.1 hp).symm, htype, rfl, hscope.symm⟩
    · rw [if_neg hp]
      refine ⟨?_, htype, rfl, hscope.symm⟩
      rcases hk with hk | hk
      · exact hk.symm
      · exact absurd (hparam.2 hk) hp
  · rintro ⟨i, u, hu, hkind, htype, hid, hscope⟩
    obtain ⟨t, ht, rfl⟩ := Option.map_eq_some_iff.1 hu
    by_cases hp : i < f.params.length
    · simp only [hp, if_true, Value.param] at hkind htype hid hscope
      subst hid
      exact ⟨hscope.symm, ⟨t, ht, htype⟩, iff_of_true hp hkind.symm⟩
    · simp only [hp, if_false, Value.result] at hkind htype hid hscope
      subst hid
      exact ⟨hscope.symm, ⟨t, ht, htype⟩, iff_of_false hp (by simp [← hkind])⟩

inductive Module.Address (m : Module) : Value → Prop
  | func {fn : Func} (h : fn ∈ m.funcs) : m.Address fn.ref
  | global {g : Global} (h : g ∈ m.globals) : m.Address g.ref

theorem Module.Located.symbolName?_isSome_iff {m : Module} (hm : m.Located) :
    (m.symbolName? v).isSome ↔ ∃ u, m.Address u ∧ u.Agrees v ∧ u.isFunction = v.isFunction := by
  rw [Module.symbolName?_isSome_iff]
  constructor
  · rintro ⟨hkind, hscope, h⟩
    cases hf : v.isFunction with
    | true =>
      simp only [hf, if_true] at h
      obtain ⟨f, hi, htype⟩ := h
      refine ⟨_, .func (List.mem_of_getElem? hi), ?_, rfl⟩
      rw [hm.ref_func hi]
      exact ⟨hkind.symm, htype, rfl, hscope.symm⟩
    | false =>
      simp only [hf, Bool.false_eq_true, if_false] at h
      obtain ⟨g, hi, htype⟩ := h
      refine ⟨_, .global (List.mem_of_getElem? hi), ?_, rfl⟩
      rw [hm.ref_global hi]
      exact ⟨hkind.symm, htype, rfl, hscope.symm⟩
  · rintro ⟨u, hu, ⟨hkind, htype, hid, hscope⟩, hf⟩
    rw [← hkind, ← hscope, ← hf, ← hid, ← htype]
    cases hu with
    | func h =>
      obtain ⟨i, hi⟩ := List.mem_iff_getElem?.1 h
      rw [hm.ref_func hi]
      exact ⟨rfl, rfl, _, hi, rfl⟩
    | global h =>
      obtain ⟨i, hi⟩ := List.mem_iff_getElem?.1 h
      rw [hm.ref_global hi]
      exact ⟨rfl, rfl, _, hi, rfl⟩

namespace World

variable {w : World} {f : FuncRef} {i k : Nat}

def Accepts (w : World) (f : FuncRef) (v : Value) : Prop :=
  checkOperand (w.contextOf f.module) (w.module f.module) (w.func f) v = .ok ()

inductive Offers (w : World) (f : FuncRef) (v : Value) : Prop
  | const {u : Value} (h : Minted (w.module f.module).context u w) (ha : u.Agrees v)
  | temp {i : Nat} {u : Value} (h : (w.func f).tempValue? i = some u) (ha : u.Agrees v)
  | symbol {u : Value} (h : (w.module f.module).Address u) (ha : u.Agrees v)
    (hf : u.isFunction = v.isFunction)

theorem accepts_iff : w.Accepts f v ↔ (w.contextOf f.module).types.owns v.type ∧
    v.Known (w.contextOf f.module) (w.module f.module) (w.func f) :=
  checkOperand_iff

section Reachable

variable (hw : w.Reachable)
include hw

theorem of_tempValue? (hu : (w.func f).tempValue? i = some u) : ∃ fn, w.func? f = some fn ∧
    u.scope = fn.serial ∧ (u.kind = .result ∨ u.kind = .param) ∧
    u.type.context = (w.module f.module).context := by
  cases hf : w.func? f with
  | none =>
    rw [func, hf] at hu
    simp [Func.tempValue?, default, instInhabitedFunc.default] at hu
  | some fn =>
    rw [func_eq hf] at hu
    obtain ⟨t, ht, rfl⟩ := Option.map_eq_some_iff.1 hu
    have htypes := (hw.typesOf f.module (lt_of_func? hf)).funcs f.index fn hf
    refine ⟨fn, rfl, ?_⟩
    by_cases hp : i < fn.params.length
    · rw [if_pos hp]
      exact ⟨rfl, .inr rfl, htypes.2 t (List.mem_of_getElem? ht)⟩
    · rw [if_neg hp]
      exact ⟨rfl, .inl rfl, htypes.2 t (List.mem_of_getElem? ht)⟩

theorem of_address (hu : (w.module k).Address u) : k < w.modules.length ∧ u.kind = .global ∧
    u.scope = (w.module k).serial ∧ u.type.context = (w.module k).context := by
  cases hu with
  | func h =>
    obtain ⟨i, hf⟩ := List.mem_iff_getElem?.1 h
    have hk := lt_of_func? (f := ⟨k, i⟩) hf
    rw [(hw.located k).ref_func hf]
    exact ⟨hk, rfl, rfl, ((hw.typesOf k hk).funcs i _ hf).1⟩
  | global h =>
    obtain ⟨i, hg⟩ := List.mem_iff_getElem?.1 h
    have hk := lt_of_global hg
    rw [(hw.located k).ref_global hg]
    exact ⟨hk, rfl, rfl, (hw.typesOf k hk).globals i _ hg⟩

variable (hl : (w.contextOf f.module).isDisposed = false)
include hl

theorem id_contextOf : (w.contextOf f.module).id = (w.module f.module).context :=
  hw.id_context (valid_of_live hl).1 (valid_of_live hl).2

theorem context_of_accepts (h : w.Accepts f v) : v.type.context = (w.module f.module).context :=
  (TypeRegistry.context_of_owns (accepts_iff.1 h).1).trans (id_contextOf hw hl)

theorem offers_of_accepts (h : w.Accepts f v) : w.Offers f v := by
  have hknown := (accepts_iff.1 h).2
  cases hk : v.kind with
  | const =>
    simp only [Value.Known, hk] at hknown
    have hu : Minted (w.module f.module).context { v with isFunction := false } w :=
      (hw.minted_iff hl).2 ⟨rfl, hknown.2⟩
    exact .const hu ⟨rfl, rfl, rfl, rfl⟩
  | global =>
    simp only [Value.Known, hk] at hknown
    obtain ⟨u, hu, ha, hf⟩ := (hw.located f.module).symbolName?_isSome_iff.1 hknown
    exact .symbol hu ha hf
  | result =>
    obtain ⟨i, u, hu, ha⟩ := (Func.names_iff (.inl hk)).1 ((Value.known_iff_names (.inl hk)).1 hknown)
    exact .temp hu ha
  | param =>
    obtain ⟨i, u, hu, ha⟩ := (Func.names_iff (.inr hk)).1 ((Value.known_iff_names (.inr hk)).1 hknown)
    exact .temp hu ha

theorem accepts_of_minted (hu : Minted (w.module f.module).context u w) (ha : u.Agrees v) :
    w.Accepts f v := by
  obtain ⟨k, hk⟩ := Option.isSome_iff_exists.1 (hu.lookupConstant hl).2
  obtain ⟨hkind, hscope, hpos, hentry, htype⟩ := ConstantPool.lookup_eq_some_iff.1 hk
  rw [ha.kind] at hkind
  rw [ha.scope] at hscope
  rw [ha.id] at hpos hentry
  rw [ha.type] at htype
  obtain ⟨d, hd, -⟩ := (hw.wellFormed hl).fits _ k hentry
  have hlookup : (w.contextOf f.module).lookupConstant v = some k :=
    ConstantPool.lookup_eq_some_iff.2 ⟨hkind, hscope, hpos, hentry, htype⟩
  refine accepts_iff.2 ⟨htype ▸ TypeRegistry.owns_iff.2 ⟨d, hd⟩, ?_⟩
  rw [Value.Known]
  simp only [hkind]
  exact ⟨hscope, Option.isSome_iff_exists.2 ⟨k, hlookup⟩⟩

theorem accepts_of_tempValue? (hu : (w.func f).tempValue? i = some u) (ha : u.Agrees v) :
    w.Accepts f v := by
  obtain ⟨fn, hf, -, hkind, -⟩ := of_tempValue? hw hu
  have hnames : (w.func f).Names v := (Func.names_iff (by rwa [← ha.kind])).2 ⟨i, u, hu, ha⟩
  obtain ⟨t, ht, htype⟩ := hnames.temp
  refine accepts_iff.2 ⟨?_, ?_⟩
  · rw [← htype]
    exact (hw.tidy_and_sound.2.funcs f fn hf hl).temps t (List.mem_of_getElem? ht)
  · exact (Value.known_iff_names (ha.kind ▸ hkind)).2 hnames

theorem accepts_of_address (hu : (w.module f.module).Address u) (ha : u.Agrees v)
    (hf : u.isFunction = v.isFunction) : w.Accepts f v := by
  have hsome := (hw.located f.module).symbolName?_isSome_iff.2 ⟨u, hu, ha, hf⟩
  refine accepts_iff.2 ⟨?_, ?_⟩
  · rw [← ha.type]
    cases hu with
    | func h =>
      obtain ⟨i, hi⟩ := List.mem_iff_getElem?.1 h
      exact hw.addressed.funcs ⟨f.module, i⟩ _ hi hl
    | global h =>
      obtain ⟨i, hi⟩ := List.mem_iff_getElem?.1 h
      exact hw.addressed.globals f.module i _ hi hl
  · have hk : v.kind = .global := ha.kind.symm.trans (of_address hw hu).2.1
    rw [Value.Known]
    simpa only [hk] using hsome

theorem accepts_iff_offers : w.Accepts f v ↔ w.Offers f v := by
  refine ⟨offers_of_accepts hw hl, fun h => ?_⟩
  cases h with
  | const hu ha => exact accepts_of_minted hw hl hu ha
  | temp hu ha => exact accepts_of_tempValue? hw hl hu ha
  | symbol hu ha hf => exact accepts_of_address hw hl hu ha hf

end Reachable

/-- The operands of a function are the values of its own scopes. -/
structure ConfinesOperands (w : World) (f : FuncRef) : Prop where
  accepts : ∀ v, w.Accepts f v ↔ w.Offers f v
  const : ∀ n u v, Minted n u w → n ≠ (w.module f.module).context → u.Agrees v → ¬ w.Accepts f v
  temp : ∀ g i u v, g ≠ f → (w.func g).tempValue? i = some u → u.Agrees v → ¬ w.Accepts f v
  symbol : ∀ k u v, k ≠ f.module → (w.module k).Address u → u.Agrees v → ¬ w.Accepts f v

/-- Values do not leak between scopes, though modules and functions have the same numbers in every
context: a number is taken once in each context, and contexts are told apart by the types. -/
theorem Reachable.confinesOperands (hw : w.Reachable)
    (hl : (w.contextOf f.module).isDisposed = false) (hf : (w.func? f).isSome) :
    w.ConfinesOperands f := by
  obtain ⟨fn, hf⟩ := Option.isSome_iff_exists.1 hf
  constructor
  · exact fun v => accepts_iff_offers hw hl
  · intro n u v hu hn ha h
    have hcontext := context_of_accepts hw hl h
    rw [← ha.type, hu.context] at hcontext
    exact hn hcontext
  · intro g i u v hg hu ha h
    obtain ⟨gn, hgn, hscope, hkind, hcontext⟩ := of_tempValue? hw hu
    rw [ha.type, context_of_accepts hw hl h] at hcontext
    have hnames := (Value.known_iff_names (ha.kind ▸ hkind)).1 (accepts_iff.1 h).2
    have hserial : gn.serial = fn.serial := by
      rw [← hscope, ha.scope, hnames.scope, func_eq hf]
    exact hg (hw.numbered.funcs.inj g f _ _ ⟨gn, hgn, hcontext.symm, hserial⟩ ⟨fn, hf, rfl, rfl⟩)
  · intro k u v hk hu ha h
    obtain ⟨hlt, hkind, hscope, hcontext⟩ := of_address hw hu
    rw [ha.type, context_of_accepts hw hl h] at hcontext
    have hknown := (accepts_iff.1 h).2
    rw [Value.Known, ← ha.kind, hkind] at hknown
    have hserial : (w.module k).serial = (w.module f.module).serial := by
      rw [← hscope, ha.scope]
      exact (Module.symbolName?_isSome_iff.1 hknown).2.1
    exact hk (hw.numbered.modules.inj k f.module _ _ ⟨hlt, hcontext.symm, hserial⟩
      ⟨lt_of_func? hf, rfl, rfl⟩)

def twins : World :=
  [.newContext 64 false, .newContext 64 false, .newModule 1 "m", .newModule 2 "m", .type 1 (.int 32),
    .type 2 (.int 32), .type 1 (.fn ⟨1, 1⟩ [⟨1, 1⟩] false), .type 2 (.fn ⟨2, 1⟩ [⟨2, 1⟩] false),
    .declareFunc 0 "f" ⟨1, 2⟩ .exported, .declareFunc 1 "f" ⟨2, 2⟩ .exported,
    .constant 1 ⟨1, 1⟩ .zero, .constant 2 ⟨2, 1⟩ .zero].foldl perform {}

theorem confinesOperands_twins : twins.Reachable ∧ (twins.contextOf 0).isDisposed = false ∧
    (twins.func? ⟨0, 0⟩).isSome ∧ (twins.module 0).serial = (twins.module 1).serial ∧
    (twins.func ⟨0, 0⟩).serial = (twins.func ⟨1, 0⟩).serial ∧ twins.ConfinesOperands ⟨0, 0⟩ := by
  have hr : twins.Reachable := reachable_foldl .empty
  have hl : (twins.contextOf 0).isDisposed = false := by decide
  have hf : (twins.func? ⟨0, 0⟩).isSome := by decide
  exact ⟨hr, hl, hf, by decide, by decide, hr.confinesOperands hl hf⟩

end World

end TypedIR
