import TypedIR.Proofs.Declaration.Initial
import TypedIR.Proofs.Declaration.Mirrors
import TypedIR.Proofs.Declaration.Places
import TypedIR.Proofs.Declaration.Table

namespace TypedIR

namespace Module

variable {m m' : Module} {c : Context}

structure KeepsSymbols (m m' : Module) : Prop where
  funcs : ∀ (i : Nat) fn, m.funcs[i]? = some fn → m'.funcs[i]? = some fn
  globals : ∀ (i : Nat) g, m.globals[i]? = some g → m'.globals[i]? = some g ∨
    g.init = none ∧ ∃ v isConstant, m'.globals[i]? = some { g with init := some v, isConstant }

theorem KeepsSymbols.refl (m : Module) : m.KeepsSymbols m := ⟨fun _ _ h => h, fun _ _ h => .inl h⟩

theorem Declares.keepsSymbols (h : m.Declares c m') : m.KeepsSymbols m' := by
  have happend {α : Type} {xs ys : List α} {i : Nat} {x : α} (hi : xs[i]? = some x) :
      (xs ++ ys)[i]? = some x := by
    rw [List.getElem?_append_left (List.getElem?_eq_some_iff.1 hi).1, hi]
  cases h with
  | func h hm =>
    subst hm
    cases h with
    | found => exact .refl m
    | made => exact ⟨fun _ _ h => happend h, fun _ _ h => .inl h⟩
  | global h hm =>
    subst hm
    cases h with
    | found => exact .refl m
    | made => exact ⟨fun _ _ h => h, fun _ _ h => .inl (happend h)⟩
    | @defined index v _ _ _ _ hg =>
      refine ⟨fun _ _ h => h, fun i g hi => ?_⟩
      rw [List.getElem?_set]
      split
      next he =>
        subst he
        rw [List.getD_eq_getElem?_getD, hi] at hg
        rw [if_pos (List.getElem?_eq_some_iff.1 hi).1, List.getD_eq_getElem?_getD, hi]
        exact .inr ⟨hg, v, _, rfl⟩
      next => exact .inl hi

theorem DeclaresFunc.exists_func (hm : m.Tabled) {name : String} {signature : TypeRef}
    {linkage : Linkage} {d : Declared} (h : m.DeclaresFunc c name signature linkage d) :
    ∃ fn, d.module.funcs[d.index]? = some fn ∧ fn.name = name ∧ fn.type = signature := by
  cases h with
  | found hs ht =>
    obtain ⟨fn, hi, hn⟩ := func_mem_table.1 (hm.lookup_eq_some_iff.1 hs)
    exact ⟨fn, hi, hn, by simpa [hi] using ht⟩
  | made => exact ⟨_, List.getElem?_concat_length, by rw [newFunc_eq], by rw [newFunc_eq]⟩

theorem DeclaresGlobal.exists_global (hm : m.Tabled) {name : String} {type : TypeRef}
    {init : Option Value} {isConstant : Bool} {linkage : Linkage} {d : Declared}
    (h : m.DeclaresGlobal c name type init isConstant linkage d) :
    ∃ g, d.module.globals[d.index]? = some g ∧ g.name = name ∧ g.type = type ∧
      ∀ v, init = some v → g.init = some v := by
  cases h with
  | found hs ht hi =>
    obtain ⟨g, hg, hn⟩ := global_mem_table.1 (hm.lookup_eq_some_iff.1 hs)
    exact ⟨g, hg, hn, by simpa [hg] using ht, by simpa [hg] using hi⟩
  | defined hs ht hi =>
    obtain ⟨g, hg, hn⟩ := global_mem_table.1 (hm.lookup_eq_some_iff.1 hs)
    have hlt := (List.getElem?_eq_some_iff.1 hg).1
    refine ⟨_, List.getElem?_set_self hlt, ?_, ht, fun v hv => hi.symm.trans hv⟩
    simpa [hg] using hn
  | made => exact ⟨_, List.getElem?_concat_length, rfl, rfl, fun _ h => h⟩

end Module

namespace World

variable {w w' : World} {m : Nat} {c : Context}

theorem tabled_empty (k : Nat) : (({} : World).module k).Tabled :=
  ⟨.nil, List.nodup_nil, List.not_mem_nil⟩

theorem Reachable.tabled (h : w.Reachable) (k : Nat) : (w.module k).Tabled := by
  induction h with
  | empty => exact tabled_empty k
  | @perform w _ o ih =>
    rcases writes_or_declares w o k with hs | ⟨-, hd⟩
    · exact ih.writes hs
    · exact ih.declares hd

theorem Reachable.declareFunc_again (h : w.Reachable) (hl : (w.contextOf m).isDisposed = false)
    {i : Nat} {fn : Func} (hi : (w.module m).funcs[i]? = some fn) (linkage : Linkage) :
    DeclareM.func m fn.name fn.type linkage w = .ok ⟨m, i⟩ w := by
  have ht := h.tabled m
  have hn : fn.name.isEmpty = false := by simpa using ht.funcName_ne hi
  have hs : (w.module m).symbols.lookup fn.name = some (.func i) :=
    ht.lookup_eq_some_iff.2 (Module.func_mem_table.2 ⟨fn, hi, rfl⟩)
  have hm := (h.mirrors (f := ⟨m, i⟩) hi hl).signature
  have hlive : (w.module m).checkLive (w.contextOf m) = .ok () := Module.checkLive_iff.2 hl
  simp only [DeclareM.func, DeclareM.check_bind hlive, hn, Bool.false_eq_true, if_false,
    DeclareM.get_bind, hm, hs, List.getD_eq_getElem?_getD, hi, Option.getD_some, ne_eq, not_true]
  rfl

/-- The symbols of a module, as they are found by their names, by their places and by their addresses,
and what they have to do with their types. -/
structure SymbolsAgree (w : World) (m : Nat) : Prop where
  nodup : (w.module m).symbolNames.Nodup
  named : "" ∉ (w.module m).symbolNames
  funcNamed : ∀ name i, (w.module m).funcNamed? name = some i ↔
    ∃ fn, (w.module m).funcs[i]? = some fn ∧ fn.name = name
  globalNamed : ∀ name i, (w.module m).globalNamed? name = some i ↔
    ∃ g, (w.module m).globals[i]? = some g ∧ g.name = name
  funcRef : ∀ (i : Nat) fn, (w.module m).funcs[i]? = some fn → fn.index = i ∧
    fn.moduleSerial = (w.module m).serial ∧ (w.module m).symbolName? fn.ref = some fn.name
  globalRef : ∀ (i : Nat) g, (w.module m).globals[i]? = some g → g.index = i ∧
    g.moduleSerial = (w.module m).serial ∧ (w.module m).symbolName? g.ref = some g.name
  mirrors : (w.contextOf m).isDisposed = false → ∀ (i : Nat) fn, (w.module m).funcs[i]? = some fn →
    fn.Mirrors (w.contextOf m).types
  params : ∀ (i : Nat) fn, (w.module m).funcs[i]? = some fn →
    ∀ (k : Nat) p, fn.params[k]? = some p → p.id = k ∧
      fn.param? k = some (.param p.type k fn.serial) ∧ fn.tempValue? k = fn.param? k
  init : (w.contextOf m).isDisposed = false → ∀ (i : Nat) g v, (w.module m).globals[i]? = some g →
    g.init = some v → (w.module m).MayInit (w.contextOf m) g.type v

/-- What a declaration in a module does, to this one and to the others. -/
structure DeclaresOnce (w : World) (m : Nat) : Prop where
  func_error : ∀ name signature linkage e w',
    DeclareM.func m name signature linkage w = .error e w' → w' = w
  global_error : ∀ name type init isConstant linkage e w',
    DeclareM.global m name type init isConstant linkage w = .error e w' → w' = w
  func : ∀ name signature linkage f w', DeclareM.func m name signature linkage w = .ok f w' →
    (∀ k, (w.module k).KeepsSymbols (w'.module k)) ∧ f.module = m ∧
      ∃ fn, w'.func? f = some fn ∧ fn.name = name ∧ fn.type = signature
  global : ∀ name type init isConstant linkage i w',
    DeclareM.global m name type init isConstant linkage w = .ok i w' →
      (∀ k, (w.module k).KeepsSymbols (w'.module k)) ∧
        ∃ g, (w'.module m).globals[i]? = some g ∧ g.name = name ∧ g.type = type ∧
          ∀ v, init = some v → g.init = some v
  again : (w.contextOf m).isDisposed = false → ∀ (i : Nat) fn linkage,
    (w.module m).funcs[i]? = some fn → DeclareM.func m fn.name fn.type linkage w = .ok ⟨m, i⟩ w

theorem keepsSymbols_declared {d : Declared} (hm : m < w.modules.length)
    (h : (w.module m).Declares c d.module) (k : Nat) :
    (w.module k).KeepsSymbols ((w.declared m d).module k) := by
  rw [module_declared hm]
  split
  next hk => exact hk ▸ h.keepsSymbols
  next => exact .refl _

/-- Functions and globals share one table of names, and redeclaring ends in many ways; all of them keep
every symbol at its place and in agreement with its type. -/
theorem Reachable.symbolsAgree (h : w.Reachable) (m : Nat) : w.SymbolsAgree m ∧ w.DeclaresOnce m := by
  have ht := h.tabled m
  constructor
  · exact {
      nodup := ht.nodup
      named := ht.named
      funcNamed := fun _ _ => ht.funcNamed?_eq_some_iff
      globalNamed := fun _ _ => ht.globalNamed?_eq_some_iff
      funcRef := fun i fn hi =>
        have hplace := (h.located m).funcs i fn hi
        ⟨hplace.1, hplace.2, (h.located m).symbolName?_func hi⟩
      globalRef := fun i g hi =>
        have hplace := (h.located m).globals i g hi
        ⟨hplace.1, hplace.2, (h.located m).symbolName?_global hi⟩
      mirrors := fun hl i _ hi => h.mirrors (f := ⟨m, i⟩) hi hl
      params := fun i _ hi k p hk =>
        have hb := h.binds (f := ⟨m, i⟩) hi
        ⟨hb.ids k p hk, hb.param? hk⟩
      init := fun hl _ _ _ hi hv => h.initialized.mayInit hi hv hl }
  · constructor
    · exact fun name signature linkage e w' => (DeclareM.func_meets name signature linkage).of_eq_error
    · exact fun name type init isConstant linkage e w' => DeclareM.global_meets.of_eq_error
    · intro name signature linkage f w' hf
      obtain ⟨d, hl, hd, rfl, rfl⟩ := (DeclareM.func_meets name signature linkage).of_eq_ok hf
      have hm := lt_of_live hl
      obtain ⟨fn, hi, hname, htype⟩ := hd.exists_func ht
      refine ⟨keepsSymbols_declared hm (.func hd rfl), rfl, fn, ?_, hname, htype⟩
      rw [func?, module_declared hm, if_pos rfl]
      exact hi
    · intro name type init isConstant linkage i w' hg
      obtain ⟨d, hl, -, hd, rfl, rfl⟩ := DeclareM.global_meets.of_eq_ok hg
      have hm := lt_of_live hl
      refine ⟨keepsSymbols_declared hm (.global hd rfl), ?_⟩
      rw [module_declared hm, if_pos rfl]
      exact hd.exists_global ht
    · exact fun hl _ _ linkage hi => h.declareFunc_again hl hi linkage

def linked : World :=
  [.newContext 64 false, .newModule 1 "m", .type 1 (.int 32), .type 1 (.fn ⟨1, 1⟩ [⟨1, 1⟩] false),
    .constant 1 ⟨1, 1⟩ .zero, .declareFunc 0 "f" ⟨1, 2⟩ .exported,
    .declareGlobal 0 "f" ⟨1, 1⟩ none false .exported,
    .declareGlobal 0 "g" ⟨1, 1⟩ none false .exported,
    .declareGlobal 0 "g" ⟨1, 1⟩ (some (.const ⟨1, 1⟩ 1 1)) true .exported,
    .declareGlobal 0 "p" ⟨1, 3⟩ (some (.global ⟨1, 3⟩ 0 1 true)) false .internal,
    .declareFunc 0 "g" ⟨1, 2⟩ .exported].foldl perform {}

theorem symbolsAgree_linked : linked.Reachable ∧ (linked.contextOf 0).isDisposed = false ∧
    (linked.module 0).symbolNames = ["f", "g", "p"] ∧
    (linked.module 0).globals.map (·.init.isSome) = [true, true] ∧
    linked.SymbolsAgree 0 ∧ linked.DeclaresOnce 0 := by
  have hr : linked.Reachable := reachable_foldl .empty
  exact ⟨hr, by decide, by decide, by decide, hr.symbolsAgree 0⟩

end World

end TypedIR
