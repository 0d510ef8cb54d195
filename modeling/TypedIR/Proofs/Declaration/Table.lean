import TypedIR.Proofs.Declaration.Writing

namespace TypedIR

namespace Module

variable {m m' : Module} {c c' : Context} {i : Nat} {name : String}

def symbolNames (m : Module) : List String := m.funcs.map (·.name) ++ m.globals.map (·.name)

def table (m : Module) : List (String × Symbol) :=
  (m.funcs.map (·.name)).zipIdx.map (fun x => (x.1, .func x.2)) ++
    (m.globals.map (·.name)).zipIdx.map fun x => (x.1, .global x.2)

theorem map_fst_table (m : Module) : m.table.map Prod.fst = m.symbolNames := by
  simp [table, symbolNames, Function.comp_def]

theorem func_mem_table :
    (name, .func i) ∈ m.table ↔ ∃ fn, m.funcs[i]? = some fn ∧ fn.name = name := by
  simp [table, List.mem_zipIdx_iff_getElem?]

theorem global_mem_table :
    (name, .global i) ∈ m.table ↔ ∃ g, m.globals[i]? = some g ∧ g.name = name := by
  simp [table, List.mem_zipIdx_iff_getElem?]

/-- The table that a module keeps is the one that the places tell. -/
structure Tabled (m : Module) : Prop where
  symbols : m.symbols.Perm m.table
  nodup : m.symbolNames.Nodup
  named : "" ∉ m.symbolNames

namespace Tabled

theorem lookup_eq_some_iff (h : m.Tabled) {s : Symbol} :
    m.symbols.lookup name = some s ↔ (name, s) ∈ m.table := by
  have hn : (m.symbols.map Prod.fst).Nodup :=
    (h.symbols.map Prod.fst).nodup_iff.2 (m.map_fst_table ▸ h.nodup)
  rw [lookup_eq_some_iff_mem hn, h.symbols.mem_iff]

theorem funcNamed?_eq_some_iff (h : m.Tabled) :
    m.funcNamed? name = some i ↔ ∃ fn, m.funcs[i]? = some fn ∧ fn.name = name := by
  rw [← func_mem_table, ← h.lookup_eq_some_iff, funcNamed?]
  split <;> simp_all

theorem globalNamed?_eq_some_iff (h : m.Tabled) :
    m.globalNamed? name = some i ↔ ∃ g, m.globals[i]? = some g ∧ g.name = name := by
  rw [← global_mem_table, ← h.lookup_eq_some_iff, globalNamed?]
  split <;> simp_all

theorem not_mem_of_lookup (h : m.Tabled) (hs : m.symbols.lookup name = none) :
    name ∉ m.symbolNames := by
  rw [← map_fst_table, ← (h.symbols.map Prod.fst).mem_iff]
  intro hm
  obtain ⟨e, he, rfl⟩ := List.mem_map.1 hm
  exact absurd (List.lookup_eq_none_iff.1 hs e he) (by simp)

theorem funcName_ne (h : m.Tabled) {fn : Func} (hi : m.funcs[i]? = some fn) : fn.name ≠ "" := by
  intro he
  apply h.named
  rw [← he, symbolNames]
  exact List.mem_append_left _ (List.mem_map_of_mem (List.mem_of_getElem? hi))

theorem congr (h : m.Tabled) (hs : m'.symbols = m.symbols)
    (hf : m'.funcs.map (·.name) = m.funcs.map (·.name))
    (hg : m'.globals.map (·.name) = m.globals.map (·.name)) : m'.Tabled := by
  have hnames : m'.symbolNames = m.symbolNames := by rw [symbolNames, symbolNames, hf, hg]
  refine ⟨?_, hnames ▸ h.nodup, hnames ▸ h.named⟩
  rw [hs, table, hf, hg]
  exact h.symbols

theorem concat (h : m.Tabled) {s : Symbol} (hn : name ≠ "") (hs : m.symbols.lookup name = none)
    (hsymbols : m'.symbols = m.symbols ++ [(name, s)]) (htable : m'.table.Perm (m.table ++ [(name, s)])) :
    m'.Tabled := by
  have hnames : m'.symbolNames.Perm (name :: m.symbolNames) := by
    have hlast := htable.map Prod.fst
    rw [List.map_append, map_fst_table, map_fst_table] at hlast
    exact hlast.trans (List.perm_append_singleton name _)
  constructor
  · rw [hsymbols]
    exact (h.symbols.append_right _).trans htable.symm
  · rw [hnames.nodup_iff, List.nodup_cons]
    exact ⟨h.not_mem_of_lookup hs, h.nodup⟩
  · rw [hnames.mem_iff]
    simpa [hn.symm] using h.named

theorem writes (h : m.Tabled) (hm : m.Writes m') : m'.Tabled :=
  h.congr hm.symbols hm.names (by rw [hm.globals])

theorem declares (h : m.Tabled) (hd : m.Declares c m') : m'.Tabled := by
  cases hd with
  | func hd hm =>
    subst hm
    cases hd with
    | found => exact h
    | made hn hs =>
      refine h.concat hn hs rfl ?_
      simp only [table, newFunc_eq, List.map_append, List.zipIdx_append, List.append_assoc]
      refine List.Perm.append_left _ ?_
      simpa using (List.perm_append_singleton _ _).symm
  | global hd hm =>
    subst hm
    cases hd with
    | found => exact h
    | @defined index v =>
      refine h.congr rfl rfl ?_
      apply List.ext_getElem?
      intro k
      simp only [List.getElem?_map, List.getElem?_set]
      grind
    | made hn hs =>
      refine h.concat hn hs rfl ?_
      simp [table, List.zipIdx_append]

end Tabled

end Module

end TypedIR
