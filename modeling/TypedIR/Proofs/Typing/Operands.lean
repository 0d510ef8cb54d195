import TypedIR.Proofs.Checks
import TypedIR.Proofs.Growth.Contexts
import TypedIR.Typing.Operand

namespace TypedIR

structure Func.Names (f : Func) (v : Value) : Prop where
  scope : v.scope = f.serial
  temp : ∃ t, f.temps[v.id]? = some t ∧ t.type = v.type
  param : v.id < f.params.length ↔ v.kind = .param

/-- What a value of each kind stands for. -/
def Value.Known (c : Context) (m : Module) (f : Func) (v : Value) : Prop :=
  match v.kind with
  | .const => v.scope = c.id ∧ (c.lookupConstant v).isSome
  | .global => (m.symbolName? v).isSome
  | .result | .param => f.Names v

variable {c c' : Context} {m m' : Module} {f f' : Func} {v : Value}

theorem Value.known_iff_names (hk : v.kind = .result ∨ v.kind = .param) :
    v.Known c m f ↔ f.Names v := by
  rw [Known]
  rcases hk with hk | hk
  · simp only [hk]
  · simp only [hk]

theorem checkTemp_iff : checkTemp c f v = .ok () ↔ f.Names v := by
  cases h : f.temps[v.id]? with
  | none =>
    simp only [checkTemp, h, ite_eq_ok_iff, bind_eq_ok_iff, throw_ne_ok]
    constructor
    · simp
    · rintro ⟨_, ⟨t, ht, _⟩, _⟩
      simp [h] at ht
  | some t =>
    simp only [checkTemp, h, ite_eq_ok_iff, bind_eq_ok_iff, throw_ne_ok, pure_eq_ok_iff]
    constructor
    · intro hc
      constructor <;> grind
    · rintro ⟨hs, ⟨t', ht, hty⟩, hp⟩
      grind

theorem checkOperand_iff :
    checkOperand c m f v = .ok () ↔ c.types.owns v.type ∧ v.Known c m f := by
  rw [checkOperand, Value.Known]
  cases ho : c.types.owns v.type with
  | false => simp
  | true =>
    cases hk : v.kind with
    | const => simp [ite_eq_ok_iff, Option.isSome_iff_ne_none]
    | global => simp [ite_eq_ok_iff, Option.isSome_iff_ne_none]
    | result => simp [checkTemp_iff]
    | param => simp [checkTemp_iff]

structure Func.Recalls (f f' : Func) : Prop where
  serial : f'.serial = f.serial
  params : f'.params.length = f.params.length
  temps : ∀ (i : Nat) t, f.temps[i]? = some t → ∃ t', f'.temps[i]? = some t' ∧ t'.type = t.type

theorem Func.Recalls.names (h : f.Recalls f') (hv : f.Names v) : f'.Names v where
  scope := by rw [h.serial, hv.scope]
  temp := by
    obtain ⟨t, ht, hty⟩ := hv.temp
    obtain ⟨t', ht', hty'⟩ := h.temps v.id t ht
    exact ⟨t', ht', hty'.trans hty⟩
  param := by rw [h.params, hv.param]

structure Module.RecallsFuncs (m m' : Module) : Prop where
  serial : m'.serial = m.serial
  funcs : ∀ (i : Nat) f, m.funcs[i]? = some f →
    ∃ f', m'.funcs[i]? = some f' ∧ f'.refType = f.refType ∧ f'.type = f.type

structure Module.Recalls (m m' : Module) : Prop extends m.RecallsFuncs m' where
  globals : ∀ (i : Nat) g, m.globals[i]? = some g →
    ∃ g', m'.globals[i]? = some g' ∧ g'.refType = g.refType

theorem Module.symbolName?_isSome_iff : (m.symbolName? v).isSome ↔
    v.kind = .global ∧ v.scope = m.serial ∧
      if v.isFunction then ∃ f, m.funcs[v.id]? = some f ∧ f.refType = v.type
      else ∃ g, m.globals[v.id]? = some g ∧ g.refType = v.type := by
  by_cases hs : v.kind = .global ∧ v.scope = m.serial
  · cases hf : v.isFunction with
    | true => simp [symbolName?, hs, hf, Option.isSome_filter, Option.any_eq_true]
    | false => simp [symbolName?, hs, hf, Option.isSome_filter, Option.any_eq_true]
  · simp only [symbolName?, hs, if_false, Option.isSome_none]
    grind

theorem Module.RecallsFuncs.symbolName? (h : m.RecallsFuncs m') (hf : v.isFunction)
    (hv : (m.symbolName? v).isSome) : (m'.symbolName? v).isSome := by
  rw [symbolName?_isSome_iff] at hv ⊢
  obtain ⟨hk, hs, hv⟩ := hv
  refine ⟨hk, by rw [h.serial, hs], ?_⟩
  simp only [hf, if_true] at hv ⊢
  obtain ⟨f, hf, ht⟩ := hv
  obtain ⟨f', hf', hr, _⟩ := h.funcs v.id f hf
  exact ⟨f', hf', hr.trans ht⟩

structure Module.KeepsAddresses (m m' : Module) : Prop where
  serial : m'.serial = m.serial
  funcs : ∀ (i : Nat) f, m.funcs[i]? = some f →
    ∃ f', m'.funcs[i]? = some f' ∧ f'.refType = f.refType
  globals : ∀ (i : Nat) g, m.globals[i]? = some g →
    ∃ g', m'.globals[i]? = some g' ∧ g'.refType = g.refType

theorem Module.KeepsAddresses.symbolName? (h : m.KeepsAddresses m') (hv : (m.symbolName? v).isSome) :
    (m'.symbolName? v).isSome := by
  rw [symbolName?_isSome_iff] at hv ⊢
  obtain ⟨hk, hs, hv⟩ := hv
  refine ⟨hk, by rw [h.serial, hs], ?_⟩
  split
  next hf =>
    rw [if_pos hf] at hv
    obtain ⟨f, hf, ht⟩ := hv
    obtain ⟨f', hf', hr⟩ := h.funcs v.id f hf
    exact ⟨f', hf', hr.trans ht⟩
  next hf =>
    rw [if_neg hf] at hv
    obtain ⟨g, hg, ht⟩ := hv
    obtain ⟨g', hg', hr⟩ := h.globals v.id g hg
    exact ⟨g', hg', hr.trans ht⟩

theorem Module.Recalls.keepsAddresses (h : m.Recalls m') : m.KeepsAddresses m' where
  serial := h.serial
  funcs i f hf := by
    obtain ⟨f', hf', hr, -⟩ := h.funcs i f hf
    exact ⟨f', hf', hr⟩
  globals := h.globals

theorem Module.Recalls.symbolName? (h : m.Recalls m') (hv : (m.symbolName? v).isSome) :
    (m'.symbolName? v).isSome :=
  h.keepsAddresses.symbolName? hv

theorem checkOperand_mono (hc : c.Grows c') (hf : f.Recalls f')
    (hs : v.kind = .global → (m.symbolName? v).isSome → (m'.symbolName? v).isSome)
    (h : checkOperand c m f v = .ok ()) : checkOperand c' m' f' v = .ok () := by
  rw [checkOperand_iff] at h ⊢
  obtain ⟨ho, hv⟩ := h
  refine ⟨hc.types.owns ho, ?_⟩
  rw [Value.Known] at hv ⊢
  cases hk : v.kind with
  | const =>
    simp only [hk] at hv ⊢
    obtain ⟨hscope, hl⟩ := hv
    obtain ⟨k, hl⟩ := Option.isSome_iff_exists.1 hl
    exact ⟨hscope.trans hc.id.symm, Option.isSome_iff_exists.2 ⟨k, hc.lookupConstant hl⟩⟩
  | global =>
    simp only [hk] at hv ⊢
    exact hs hk hv
  | result =>
    simp only [hk] at hv ⊢
    exact hf.names hv
  | param =>
    simp only [hk] at hv ⊢
    exact hf.names hv

end TypedIR
