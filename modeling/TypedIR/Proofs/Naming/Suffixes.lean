import TypedIR.Proofs.Building.Outcome
import TypedIR.Proofs.Naming.Labels
import TypedIR.Proofs.Registry.Asking

/-! Labels that are given. A block has the label that was wanted for it, where no block of the function had
that one before, and else the label with the least suffix that no block had. The search for a suffix
begins at the count of the label that is wanted, for all suffixes below are taken. -/

namespace TypedIR

namespace NameUses

variable {u : NameUses} {base name x : String} {k n : Nat}

theorem lookup_cons_ite (e : String × Nat) (es : List (String × Nat)) :
    (e :: es).lookup x = if x = e.1 then some e.2 else es.lookup x := by
  rw [List.lookup_cons]
  by_cases hx : x = e.1
  · simp [hx]
  · simp [hx, beq_false_of_ne hx]

theorem lookup_map_replace (es : List (String × Nat)) :
    (es.map fun e => if e.1 = name then (name, n) else e).lookup x =
      if x = name then (es.lookup name).map fun _ => n else es.lookup x := by
  induction es with
  | nil => simp
  | cons e es ih =>
    rw [List.map_cons, lookup_cons_ite, ih, lookup_cons_ite, lookup_cons_ite]
    by_cases he : e.1 = name
    · by_cases hx : x = name <;> simp [he, hx]
    · by_cases hx : x = name
      · simp [he, Ne.symm he, hx]
      · simp [he, hx]

theorem count_set : (u.set name n).count x = if x = name then n else u.count x := by
  rw [set]
  split
  next h =>
    obtain ⟨m, hm⟩ := Option.isSome_iff_exists.1 h
    simp only [count, lookup_map_replace, hm, Option.map_some]
    split <;> rfl
  next h =>
    have hn : u.counts.lookup name = none := Option.not_isSome_iff_eq_none.1 h
    simp only [count, List.lookup_append]
    by_cases hx : x = name
    · simp [hx, hn]
    · have hx' : (x == name) = false := by simpa using hx
      simp [List.lookup_cons, hx, hx']

/-- Of every name the suffixes below its count are taken. -/
def Dense (u : NameUses) : Prop := ∀ base k, 0 < k → k < u.count base → u.taken (suffixed base k)

structure LeastFree (u : NameUses) (base : String) (k : Nat) : Prop where
  pos : 0 < k
  free : ¬ u.taken (suffixed base k)
  least : ∀ j, 0 < j → j < k → u.taken (suffixed base j)

theorem le_freeSuffix (u : NameUses) (base : String) (n : Nat) : n ≤ u.freeSuffix base n := by
  rw [freeSuffix]
  cases hf : (List.range' n (u.counts.length + 1)).find? fun k => !u.taken (suffixed base k) with
  | none => exact Nat.le_refl n
  | some k =>
    obtain ⟨-, hk, -⟩ := List.find?_range'_eq_some.1 hf
    exact (List.mem_range'_1.1 hk).1

theorem taken_of_lt_freeSuffix (hn : n ≤ k) (hk : k < u.freeSuffix base n) :
    u.taken (suffixed base k) := by
  rw [freeSuffix] at hk
  cases hf : (List.range' n (u.counts.length + 1)).find? fun k => !u.taken (suffixed base k) with
  | none =>
    rw [hf, Option.getD_none] at hk
    omega
  | some l =>
    obtain ⟨-, -, hall⟩ := List.find?_range'_eq_some.1 hf
    rw [hf, Option.getD_some] at hk
    simpa using hall k hn hk

theorem Dense.leastFree (hd : u.Dense) (hc : u.count base ≠ 0) :
    u.LeastFree base (u.freeSuffix base (u.count base)) where
  pos := Nat.lt_of_lt_of_le (Nat.pos_of_ne_zero hc) (le_freeSuffix u base _)
  free := not_taken_freeSuffix u base _
  least := by
    intro j hj hlt
    by_cases hlow : j < u.count base
    · exact hd base j hj hlow
    · exact taken_of_lt_freeSuffix (Nat.le_of_not_lt hlow) hlt

theorem Dense.claim_cases (hd : u.Dense) (hp : u.Positive) (base : String) :
    ¬ u.taken base ∧ u.claim base = (base, u.set base 1) ∨
      u.taken base ∧ ∃ k, u.LeastFree base k ∧
        u.claim base = (suffixed base k, (u.set base (k + 1)).set (suffixed base k) 1) := by
  rw [hp.taken_iff_count, NameUses.claim]
  split
  next h => exact .inl ⟨by simpa using h, rfl⟩
  next h => exact .inr ⟨h, _, hd.leastFree h, rfl⟩

theorem Dense.claim (hd : u.Dense) (hp : u.Positive) (base : String) : (u.claim base).2.Dense := by
  intro x j hj hlt
  rw [taken_claim hp]
  rcases hd.claim_cases hp base with ⟨-, he⟩ | ⟨-, k, hk, he⟩
  · rw [he, count_set] at hlt
    split at hlt
    · omega
    · exact .inr (hd x j hj hlt)
  · rw [he, count_set, count_set] at hlt
    split at hlt
    · omega
    · split at hlt
      next hx =>
        subst hx
        rw [he]
        rcases Nat.lt_succ_iff_lt_or_eq.1 hlt with hlt | rfl
        · exact .inr (hk.least j hj hlt)
        · exact .inl rfl
      next => exact .inr (hd x j hj hlt)

end NameUses

/-- The label that is given for the one that is wanted, where the earlier ones are in use. -/
structure GivenLabel (earlier : List String) (wanted given : String) : Prop where
  kept : wanted ∉ earlier → given = wanted
  suffixed : wanted ∈ earlier → ∃ n, 0 < n ∧ given = NameUses.suffixed wanted n ∧
    given ∉ earlier ∧ ∀ k, 0 < k → k < n → NameUses.suffixed wanted k ∈ earlier

namespace Func

variable {f f' : Func} {text : String}

def labels (f : Func) : List String := f.blocks.entries.map (·.2.label)

def wantedLabel (label : String) : String := if label.isEmpty then "bb" else label

theorem labels_addBlock (f : Func) (self : FuncRef) (label : String) :
    (f.addBlock self label).2.labels = f.labels ++ [(f.labelUses.claim (wantedLabel label)).1] := by
  simp [labels, addBlock, BlockList.push, wantedLabel]

theorem labels_modify (f : Func) (id : Nat) {g : Block → Block} (hg : ∀ b, (g b).label = b.label) :
    labels { f with blocks := f.blocks.modify id g } = f.labels := by
  simp only [labels, BlockList.modify, List.map_map]
  refine List.map_congr_left fun e _ => ?_
  by_cases he : e.1 = id <;> simp [he, hg]

structure LabelsCounted (f : Func) : Prop extends f.LabelsKept where
  dense : f.labelUses.Dense
  counted : ∀ text, f.labelUses.taken text → text ∈ f.labels
  placed : f.blocks.entries.map Prod.fst = List.range f.blocks.size

theorem Bare.labelsCounted (h : f.Bare) : f.LabelsCounted where
  toLabelsKept := h.labelsKept
  dense := by simp [NameUses.Dense, h.labelUses, NameUses.count]
  counted := by simp [h.labelUses, NameUses.taken]
  placed := by simp [h.blocks, BlockList.empty, BlockList.size]

namespace LabelsCounted

theorem taken_iff (h : f.LabelsCounted) : f.labelUses.taken text ↔ text ∈ f.labels := by
  constructor
  · exact h.counted text
  · intro ht
    obtain ⟨e, he, rfl⟩ := List.mem_map.1 ht
    exact h.taken e.1 e.2 (BlockList.get?_eq_some_iff.2 he)

theorem given (h : f.LabelsCounted) (wanted : String) :
    GivenLabel f.labels wanted (f.labelUses.claim wanted).1 := by
  rcases h.dense.claim_cases h.positive wanted with ⟨hfree, he⟩ | ⟨htaken, k, hk, he⟩
  · rw [h.taken_iff] at hfree
    rw [he]
    exact ⟨fun _ => rfl, fun hw => absurd hw hfree⟩
  · rw [h.taken_iff] at htaken
    rw [he]
    refine ⟨fun hw => absurd htaken hw, fun _ => ⟨k, hk.pos, rfl, ?_, fun j hj hlt => ?_⟩⟩
    · rw [← h.taken_iff]
      exact hk.free
    · exact h.taken_iff.1 (hk.least j hj hlt)

theorem addBlock (h : f.LabelsCounted) (self : FuncRef) (label : String) :
    (f.addBlock self label).2.LabelsCounted where
  toLabelsKept := h.toLabelsKept.addBlock self label
  dense := h.dense.claim h.positive _
  counted := by
    intro text ht
    rw [labels_addBlock, List.mem_append, List.mem_singleton]
    rcases (NameUses.taken_claim h.positive).1 ht with rfl | ht
    · exact .inr rfl
    · exact .inl (h.counted text ht)
  placed := by
    have hold := h.placed
    simp only [BlockList.size] at hold
    simp [Func.addBlock, BlockList.push, BlockList.size, List.range_succ, hold]

theorem modify (h : f.LabelsCounted) (id : Nat) {g : Block → Block} (hg : ∀ b, (g b).label = b.label) :
    LabelsCounted { f with blocks := f.blocks.modify id g } where
  toLabelsKept := h.toLabelsKept.modify id hg
  dense := h.dense
  counted text ht := by
    rw [labels_modify f id hg]
    exact h.counted text ht
  placed := by simpa [BlockList.modify, BlockList.size, Function.comp_def] using h.placed

theorem newTemp (h : f.LabelsCounted) (type : TypeRef) (name : String) :
    (f.newTemp type name).2.LabelsCounted := by
  have hkept := h.toLabelsKept.newTemp type name
  obtain ⟨t, uses, he, -⟩ := f.newTemp_eq type name
  rw [he] at hkept ⊢
  exact ⟨hkept, h.dense, h.counted, h.placed⟩

theorem writes (h : f.LabelsCounted) (hw : f.Writes f') : f'.LabelsCounted := by
  induction hw with
  | refl => exact h
  | temp _ type name ih => exact ih.newTemp type name
  | block _ self label ih => exact ih.addBlock self label
  | instrs _ id g hg ih => exact ih.modify id fun b => (hg b).1

theorem apply (h : f.LabelsCounted) {g self : FuncRef} {e : FuncEdit}
    (he : (Change.func g e).relabels = false) : (e.apply self f).LabelsCounted := by
  have hkept : (e.apply self f).LabelsKept := h.toLabelsKept.apply he
  cases e with
  | label => cases he
  | instrs block is => exact h.modify block fun _ => rfl
  | addBlock label => exact h.addBlock self label
  | newTemp type name => exact h.newTemp type name
  | _ => exact ⟨hkept, h.dense, h.counted, h.placed⟩

end LabelsCounted

structure LabelsFound (f : Func) : Prop where
  distinct : f.labels.Nodup
  placed : f.blocks.entries.map Prod.fst = List.range f.blocks.size
  found : ∀ text id, f.blocks.find? text = some id ↔ ∃ x, f.blocks.get? id = some x ∧ x.label = text

theorem LabelsCounted.labelsFound (h : f.LabelsCounted) : f.LabelsFound where
  distinct := (labelsApart_iff.1 h.toLabelsApart).2
  placed := h.placed
  found text id := by
    constructor
    · intro hfound
      obtain ⟨e, he, rfl⟩ := Option.map_eq_some_iff.1 hfound
      have hx := BlockList.get?_eq_some_iff.2 (List.mem_of_find?_eq_some he)
      exact ⟨e.2, hx, by simpa using List.find?_some he⟩
    · rintro ⟨x, hx, rfl⟩
      exact h.toLabelsApart.find? hx

end Func

/-- Labels that are given one after another. -/
inductive GivenLabels : List String → List String → List String → Prop
  | nil (earlier : List String) : GivenLabels earlier [] []
  | cons {earlier wanted given : List String} {label text : String}
    (h : GivenLabel earlier (Func.wantedLabel label) text)
    (hs : GivenLabels (earlier ++ [text]) wanted given) :
    GivenLabels earlier (label :: wanted) (text :: given)

namespace World

variable {w : World} {f : FuncRef} {fn : Func}

def addBlocks (w : World) (f : FuncRef) : List String → List BlockRef × World
  | [] => ([], w)
  | label :: labels =>
    let (b, w) := w.addBlock f label
    let (bs, w) := w.addBlocks f labels
    (b :: bs, w)

theorem addBlock_eq_change (hf : w.func? f = some fn) (label : String) :
    w.addBlock f label = (⟨f, fn.blocks.size⟩, w.change (.func f (.addBlock label))) := by
  rw [addBlock, func_eq hf]
  exact Prod.ext rfl (modifyFunc_congr hf rfl)

theorem Labelled.labelsCounted (h : w.Labelled) (hf : w.func? f = some fn) : fn.LabelsCounted :=
  h.func_induction (fun hb => hb.labelsCounted) (fun hk => hk.writes) (fun hk => hk.apply) hf

theorem Labelled.blocksAdded (h : w.Labelled) (hf : w.func? f = some fn) (wanted : List String) :
    ∃ fn' added, (w.addBlocks f wanted).2.func? f = some fn' ∧
      fn'.blocks.entries = fn.blocks.entries ++ added ∧
      (w.addBlocks f wanted).1 = added.map (fun e => ⟨f, e.1⟩) ∧
      GivenLabels fn.labels wanted (added.map (·.2.label)) ∧ fn'.LabelsFound := by
  induction wanted generalizing w fn with
  | nil => exact ⟨fn, [], hf, by simp, rfl, .nil _, (h.labelsCounted hf).labelsFound⟩
  | cons label wanted ih =>
    have hc := h.labelsCounted hf
    have hf' : (w.change (.func f (.addBlock label))).func? f = some (fn.addBlock f label).2 := by
      simp [change, func?_modifyFunc, hf, FuncEdit.apply]
    obtain ⟨fn', added, hfn', hentries, hrefs, hgiven, hfound⟩ :=
      ih (h.change (.func f (.addBlock label)) rfl) hf'
    rw [addBlocks, addBlock_eq_change hf]
    refine ⟨fn', (fn.blocks.size, ⟨(fn.labelUses.claim (Func.wantedLabel label)).1, some f, []⟩) :: added,
      hfn', ?_, ?_, ?_, hfound⟩
    · rw [hentries]
      simp [Func.addBlock, BlockList.push, Func.wantedLabel]
    · rw [List.map_cons, ← hrefs]
    · rw [Func.labels_addBlock] at hgiven
      exact .cons (hc.given _) hgiven

theorem meets_appendBlock_addBlock (f : FuncRef) (label : String) (s : BuildState) :
    (BuildM.appendBlock f label).Meets s fun b s' => (b, s'.world) = s.world.addBlock f label :=
  BuildM.meets_live_bind fun _ => BuildM.meets_check_bind fun _ _ => rfl

theorem addBlocks_of_mapM {wanted : List String} {s s' : BuildState} {refs : List BlockRef}
    (h : wanted.mapM (BuildM.appendBlock f) s = .ok refs s') :
    s.world.addBlocks f wanted = (refs, s'.world) := by
  induction wanted generalizing s refs with
  | nil =>
    cases h
    rfl
  | cons label wanted ih =>
    rw [List.mapM_cons] at h
    obtain ⟨b, s₁, hb, h⟩ := of_bind_eq_ok h
    obtain ⟨bs, s₂, hbs, h⟩ := of_bind_eq_ok h
    cases h
    have hone := meets_appendBlock_addBlock f label s
    rw [BuildM.Meets, hb] at hone
    rw [addBlocks, ← hone]
    dsimp only
    rw [ih hbs]

/-- Blocks that are added to a function one after another have the labels that are wanted for them, or these
with the least suffixes that are free by then. By its label each block of the function is found. -/
theorem labels_addBlocks (h : w.Labelled) (hf : w.func? f = some fn) (wanted : List String) :
    (∃ fn' added, (w.addBlocks f wanted).2.func? f = some fn' ∧
      fn'.blocks.entries = fn.blocks.entries ++ added ∧
      (w.addBlocks f wanted).1 = added.map (fun e => ⟨f, e.1⟩) ∧
      GivenLabels fn.labels wanted (added.map (·.2.label)) ∧ fn'.LabelsFound) ∧
    ∀ (s s' : BuildState) (refs : List BlockRef), s.world = w →
      wanted.mapM (BuildM.appendBlock f) s = .ok refs s' → w.addBlocks f wanted = (refs, s'.world) := by
  refine ⟨h.blocksAdded hf wanted, ?_⟩
  rintro s s' refs rfl hrun
  exact addBlocks_of_mapM hrun

def bare : World :=
  [.newContext 64 false, .newModule 1 "m", .type 1 .void, .type 1 (.fn ⟨1, 1⟩ [] false),
    .declareFunc 0 "f" ⟨1, 2⟩ .exported].foldl perform {}

def dottedLabels : List String := ["x", "x.1", "x", "x.1", "", "x", "bb"]

theorem labels_dottedLabels : bare.Labelled ∧
    (bare.addBlocks ⟨0, 0⟩ dottedLabels).1.map (·.id) = List.range 7 ∧
    ((bare.addBlocks ⟨0, 0⟩ dottedLabels).2.func ⟨0, 0⟩).labels =
      ["x", "x.1", "x.2", "x.1.1", "bb", "x.3", "bb.1"] ∧
    ∃ fn', (bare.addBlocks ⟨0, 0⟩ dottedLabels).2.func? ⟨0, 0⟩ = some fn' ∧ fn'.LabelsFound := by
  have hl : bare.Labelled := (reachable_foldl .empty).changedBy fun _ _ => rfl
  obtain ⟨fn', -, hf, -, -, -, hfound⟩ := (labels_addBlocks hl (f := ⟨0, 0⟩) rfl dottedLabels).1
  exact ⟨hl, by decide, by decide, fn', hf, hfound⟩

end World

end TypedIR
