import TypedIR.Proofs.Registry.Asking

namespace TypedIR

namespace TypeRequest

open TypeRegistry

variable {r : TypeRegistry} {s : TypeSpec} {t : TypeRef}

theorem resolveAll_eq_ok_iff {ss : List TypeSpec} {ts : List TypeRef} :
    resolveAll ss r = .ok ts r ↔ List.Forall₂ (Answers r) ss ts := by
  induction ss generalizing ts with
  | nil => cases ts <;> simp [resolveAll, pure, EStateM.pure]
  | cons s ss ih =>
    rw [List.forall₂_cons_left_iff, resolveAll]
    constructor
    · intro h
      obtain ⟨t, r₁, h₁, h⟩ := of_bind_eq_ok h
      obtain ⟨us, r₂, h₂, h⟩ := of_bind_eq_ok h
      obtain ⟨rfl, rfl⟩ := EStateM.Result.ok.inj h
      obtain rfl := eq_of_adds_of_adds (adds_of_eq_ok (inherited_onlyAdds.resolve s) h₁)
        (adds_of_eq_ok (inherited_onlyAdds.resolveAll ss) h₂)
      exact ⟨t, us, h₁, ih.1 h₂, rfl⟩
    · rintro ⟨t, us, ht, hus, rfl⟩
      have ht : resolve s r = .ok t r := ht
      simp [Bind.bind, EStateM.bind, ht, ih.2 hus, pure, EStateM.pure]

theorem answers_iff_own (hl : r.disposed = false) :
    Answers r s t ↔ ∃ ts, List.Forall₂ (Answers r) s.asked ts ∧ s.own ts r = .ok t r := by
  simp only [← resolveAll_eq_ok_iff]
  constructor
  · intro h
    cases h₁ : resolveAll s.asked r with
    | error e r₁ => exact nomatch (resolve_eq_error hl h₁).symm.trans h
    | ok ts r₁ =>
      have hown : s.own ts r₁ = .ok t r := (resolve_eq_own hl h₁).symm.trans h
      obtain rfl := eq_of_adds_of_adds
        (adds_of_eq_ok (inherited_onlyAdds.resolveAll s.asked) h₁)
        (adds_of_eq_ok (onlyAdds_own s ts) hown)
      exact ⟨ts, rfl, hown⟩
  · rintro ⟨ts, h, hown⟩
    exact (resolve_eq_own hl h).trans hown

end TypeRequest

namespace TypeSpec

mutual

/-- The type that a spec asks for, written out in full, given what the handles in it stand for. A spec
that cannot be answered at all asks for none. -/
def tree? (part : TypeRef → Option TypeTree) : TypeSpec → Option TypeTree
  | void => some .void
  | int bits => some (.int bits)
  | float kind => some (.float kind)
  | pointer space => some (.pointer space)
  | array parts count => do
    let [elem] ← trees? part parts | none
    return .array elem count
  | vector parts count => do
    let [elem] ← trees? part parts | none
    return .vector elem count
  | struct fields packed => return .struct (← trees? part fields) packed
  | fn parts variadic => do
    let result :: params ← trees? part parts | none
    return .fn result params variadic
  | named name => if name.isEmpty then none else some (.named name)
  | handle t => part t
  | malformed => none

def trees? (part : TypeRef → Option TypeTree) : List TypeSpec → Option (List TypeTree)
  | [] => some []
  | s :: rest => return (← tree? part s) :: (← trees? part rest)

end

theorem trees?_eq_mapM (part : TypeRef → Option TypeTree) (ss : List TypeSpec) :
    trees? part ss = ss.mapM (tree? part) := by
  induction ss with
  | nil => rfl
  | cons s ss ih => rw [trees?, List.mapM_cons, ih]

end TypeSpec

namespace TypeRegistry

open TypeRequest

variable {r : TypeRegistry} {s : TypeSpec} {t u : TypeRef} {d : TypeDesc}

/-- The type that the spec asks for is there. -/
def Has (r : TypeRegistry) (s : TypeSpec) (t : TypeRef) : Prop :=
  r.owns t ∧ s.tree? r.tree? = r.tree? t

theorem has_iff (hc : r.Canonical) : r.Has s t ↔
    ∃ T, s.tree? r.tree? = some T ∧ ∃ d, r.lookup t = some d ∧ d.tree? r.tree? = some T := by
  constructor
  · rintro ⟨ho, h⟩
    obtain ⟨T, hT⟩ := Option.isSome_iff_exists.1 (hc.isSome_tree? ho)
    obtain ⟨d, hd⟩ := owns_iff.1 ho
    exact ⟨T, h.trans hT, d, hd, (hc.tree?_eq hd).symm.trans hT⟩
  · rintro ⟨T, hs, d, hd, hT⟩
    exact ⟨owns_iff.2 ⟨d, hd⟩, hs.trans ((hc.tree?_eq hd).trans hT).symm⟩

theorem forall₂_has_iff {ss : List TypeSpec} {ts : List TypeRef} (hc : r.Canonical) :
    List.Forall₂ r.Has ss ts ↔
      (∀ t ∈ ts, r.owns t) ∧ TypeSpec.trees? r.tree? ss = ts.mapM r.tree? := by
  rw [TypeSpec.trees?_eq_mapM]
  constructor
  · intro h
    induction h with
    | nil => simp
    | @cons s t ss ts h _ ih =>
      refine ⟨List.forall_mem_cons.2 ⟨h.1, ih.1⟩, ?_⟩
      rw [List.mapM_cons, List.mapM_cons, h.2, ih.2]
  · rintro ⟨ho, h⟩
    obtain ⟨Ts, hTs⟩ := hc.exists_trees ho
    rw [hTs] at h
    rw [mapM_eq_some_iff] at h hTs
    induction h generalizing ts with
    | nil => cases hTs; exact .nil
    | cons hs _ ih =>
      cases hTs with
      | cons ht hts =>
        exact .cons ⟨ho _ List.mem_cons_self, hs.trans ht.symm⟩
          (ih (fun t h => ho t (List.mem_cons_of_mem _ h)) hts)

structure Settled (r : TypeRegistry) : Prop where
  live : r.disposed = false
  canonical : r.Canonical
  admits : ∀ t d, r.lookup t = some d → d.isNamed = false → r.Admits d

theorem Settled.make_eq_ok_iff (hr : r.Settled) (hn : d.isNamed = false) :
    make d r = .ok t r ↔ r.lookup t = some d := by
  constructor
  · exact lookup_of_make
  · intro h
    simp [make, hr.live, check_eq_ok_iff.2 (hr.admits t d h hn), hr.canonical.intern_of_lookup h]

theorem Settled.named_eq_ok_iff {name : String} (hr : r.Settled) :
    named name r = .ok t r ↔
      name.isEmpty = false ∧ ∃ body, r.lookup t = some (.named name body) := by
  constructor
  · exact fun h => (of_named_eq_ok h).2
  · rintro ⟨he, body, h⟩
    simp [named, hr.live, he, hr.canonical.lookupNamed_of_lookup h]

theorem handle_eq_ok_iff : TypeRequest.handle t r = .ok u r ↔ t = u ∧ r.owns t := by
  cases h : r.lookup t <;> simp [TypeRequest.handle, component, owns, h]

theorem has_iff_element {parts : List TypeSpec} {desc : TypeRef → TypeDesc}
    {tree : TypeTree → TypeTree} (hc : r.Canonical)
    (hs : s.tree? r.tree? = do
      let [S] ← TypeSpec.trees? r.tree? parts | none
      return tree S)
    (hd : ∀ d S, d.tree? r.tree? = some (tree S) ↔ ∃ elem, r.tree? elem = some S ∧ d = desc elem)
    (hp : ∀ elem, (desc elem).parts = [elem]) :
    r.Has s t ↔ ∃ elem, List.Forall₂ r.Has parts [elem] ∧ r.lookup t = some (desc elem) := by
  rw [has_iff hc, hs]
  constructor
  · rintro ⟨T, hs, d, hl, hT⟩
    match hTs : TypeSpec.trees? r.tree? parts with
    | some [S] =>
      obtain rfl : tree S = T := by simpa [hTs] using hs
      obtain ⟨elem, he, rfl⟩ := (hd d S).1 hT
      refine ⟨elem, (forall₂_has_iff hc).2 ⟨?_, by simp [hTs, he]⟩, hl⟩
      exact hp elem ▸ hc.closed t _ hl
    | none | some [] | some (_ :: _ :: _) => simp [hTs] at hs
  · rintro ⟨elem, hp, hl⟩
    obtain ⟨ho, hTs⟩ := (forall₂_has_iff hc).1 hp
    obtain ⟨S, hS⟩ := Option.isSome_iff_exists.1 (hc.isSome_tree? (ho elem List.mem_cons_self))
    exact ⟨tree S, by simp [hTs, hS], _, hl, (hd _ S).2 ⟨elem, hS, rfl⟩⟩

theorem has_struct_iff {parts : List TypeSpec} {packed : Bool} (hc : r.Canonical) :
    r.Has (.struct parts packed) t ↔
      ∃ ts, List.Forall₂ r.Has parts ts ∧ r.lookup t = some (.struct ts packed) := by
  rw [has_iff hc]
  constructor
  · rintro ⟨T, hs, d, hd, hT⟩
    cases hTs : TypeSpec.trees? r.tree? parts with
    | none => simp [TypeSpec.tree?, hTs] at hs
    | some Ss =>
      obtain rfl : .struct Ss packed = T := by simpa [TypeSpec.tree?, hTs] using hs
      obtain ⟨fields, hf, rfl⟩ := TypeDesc.tree?_eq_struct_iff.1 hT
      exact ⟨fields, (forall₂_has_iff hc).2 ⟨hc.closed t _ hd, hTs.trans hf.symm⟩, hd⟩
  · rintro ⟨ts, hp, hd⟩
    obtain ⟨ho, hTs⟩ := (forall₂_has_iff hc).1 hp
    obtain ⟨Ss, hSs⟩ := hc.exists_trees ho
    exact ⟨.struct Ss packed, by simp [TypeSpec.tree?, hTs, hSs], _, hd, by simp [TypeDesc.tree?, hSs]⟩

theorem has_fn_iff {parts : List TypeSpec} {variadic : Bool} (hc : r.Canonical) :
    r.Has (.fn parts variadic) t ↔ ∃ ts, List.Forall₂ r.Has parts ts ∧
      ∃ result params, ts = result :: params ∧
        r.lookup t = some (.fn result params variadic) := by
  rw [has_iff hc]
  constructor
  · rintro ⟨T, hs, d, hd, hT⟩
    match hTs : TypeSpec.trees? r.tree? parts with
    | some (S :: Ss) =>
      obtain rfl : .fn S Ss variadic = T := by simpa [TypeSpec.tree?, hTs] using hs
      obtain ⟨result, params, hr, hp, rfl⟩ := TypeDesc.tree?_eq_fn_iff.1 hT
      refine ⟨result :: params, (forall₂_has_iff hc).2 ⟨hc.closed t _ hd, ?_⟩, result, params, rfl, hd⟩
      simp [hTs, List.mapM_cons, hr, hp]
    | none | some [] => simp [TypeSpec.tree?, hTs] at hs
  · rintro ⟨-, hp, result, params, rfl, hd⟩
    obtain ⟨ho, hTs⟩ := (forall₂_has_iff hc).1 hp
    obtain ⟨ho, hos⟩ := List.forall_mem_cons.1 ho
    obtain ⟨S, hS⟩ := Option.isSome_iff_exists.1 (hc.isSome_tree? ho)
    obtain ⟨Ss, hSs⟩ := hc.exists_trees hos
    refine ⟨.fn S Ss variadic, ?_, _, hd, by simp [TypeDesc.tree?, hS, hSs]⟩
    simp [TypeSpec.tree?, hTs, List.mapM_cons, hS, hSs]

theorem has_handle_iff (hc : r.Canonical) : r.Has (.handle u) t ↔ u = t ∧ r.owns u := by
  constructor
  · rintro ⟨ho, h⟩
    obtain ⟨T, hT⟩ := Option.isSome_iff_exists.1 (hc.isSome_tree? ho)
    have hu : r.tree? u = some T := h.trans hT
    cases hd : r.lookup u with
    | none =>
      have hnone : r.tree? u = none := by cases hi : u.id <;> simp [tree?, hi, treeWithin, hd]
      simp [hnone] at hu
    | some d =>
      have hou := owns_iff.2 ⟨d, hd⟩
      exact ⟨hc.eq_of_tree?_eq hu hT hou ho, hou⟩
  · rintro ⟨rfl, ho⟩
    exact ⟨ho, rfl⟩

theorem forall₂_asked_element {parts : List TypeSpec} {R : TypeSpec → TypeRef → Prop}
    {elem : TypeRef} {rest : List TypeRef} :
    List.Forall₂ R (if parts.length = 1 then parts else []) (elem :: rest) ↔
      rest = [] ∧ List.Forall₂ R parts [elem] := by
  split
  next hone =>
    constructor
    · intro h
      have hlen : parts.length = rest.length + 1 := h.length_eq
      obtain rfl : rest = [] := List.length_eq_zero_iff.1 (by omega)
      exact ⟨rfl, h⟩
    · rintro ⟨rfl, h⟩
      exact h
  next hone => simpa using fun _ h => hone h.length_eq

theorem Settled.element_iff_own {parts : List TypeSpec} {desc : TypeRef → TypeDesc} (hr : r.Settled)
    (hn : ∀ elem, (desc elem).isNamed = false)
    (hs : s.asked = if parts.length = 1 then parts else [])
    (hown : ∀ elem rest, s.own (elem :: rest) = make (desc elem))
    (hnone : s.own [] = throw .elementCount) :
    (∃ elem, List.Forall₂ r.Has parts [elem] ∧ r.lookup t = some (desc elem)) ↔
      ∃ ts, List.Forall₂ r.Has s.asked ts ∧ s.own ts r = .ok t r := by
  rw [hs]
  constructor
  · rintro ⟨elem, hp, hd⟩
    refine ⟨[elem], forall₂_asked_element.2 ⟨rfl, hp⟩, ?_⟩
    rw [hown]
    exact (hr.make_eq_ok_iff (hn elem)).2 hd
  · rintro ⟨ts, hp, hmake⟩
    cases ts with
    | nil => simp [hnone, throw_eq_error] at hmake
    | cons elem rest =>
      rw [hown] at hmake
      exact ⟨elem, (forall₂_asked_element.1 hp).2, (hr.make_eq_ok_iff (hn elem)).1 hmake⟩

theorem Settled.atom_iff_own {T : TypeTree} (hr : r.Settled) (hn : d.isNamed = false)
    (hs : s.asked = []) (hown : s.own [] = make d) (hT : s.tree? r.tree? = some T)
    (hd : ∀ d', d'.tree? r.tree? = some T ↔ d' = d) :
    r.Has s t ↔ ∃ ts, List.Forall₂ r.Has s.asked ts ∧ s.own ts r = .ok t r := by
  simp [has_iff hr.canonical, hs, hown, hT, hd, hr.make_eq_ok_iff hn]

theorem Settled.has_iff_own (hr : r.Settled) (s : TypeSpec) (t : TypeRef) :
    r.Has s t ↔ ∃ ts, List.Forall₂ r.Has s.asked ts ∧ s.own ts r = .ok t r := by
  have hc := hr.canonical
  cases s with
  | void => exact hr.atom_iff_own rfl rfl rfl rfl fun _ => TypeDesc.tree?_eq_void_iff
  | int bits => exact hr.atom_iff_own rfl rfl rfl rfl fun _ => TypeDesc.tree?_eq_int_iff
  | float kind => exact hr.atom_iff_own rfl rfl rfl rfl fun _ => TypeDesc.tree?_eq_float_iff
  | pointer space => exact hr.atom_iff_own rfl rfl rfl rfl fun _ => TypeDesc.tree?_eq_pointer_iff
  | array parts count =>
    rw [has_iff_element hc rfl (fun _ _ => TypeDesc.tree?_eq_array_iff) fun _ => rfl]
    exact hr.element_iff_own (fun _ => rfl) rfl (fun _ _ => rfl) rfl
  | vector parts count =>
    rw [has_iff_element hc rfl (fun _ _ => TypeDesc.tree?_eq_vector_iff) fun _ => rfl]
    exact hr.element_iff_own (fun _ => rfl) rfl (fun _ _ => rfl) rfl
  | struct parts packed =>
    have hmake (ts : List TypeRef) := hr.make_eq_ok_iff (d := .struct ts packed) (t := t) rfl
    simp [has_struct_iff hc, TypeSpec.asked, TypeSpec.own, TypeSpec.ask, TypeAsk.request, hmake]
  | fn parts variadic =>
    have hmake (result : TypeRef) (params : List TypeRef) :=
      hr.make_eq_ok_iff (d := .fn result params variadic) (t := t) rfl
    rw [has_fn_iff hc]
    refine exists_congr fun ts => and_congr_right fun _ => ?_
    cases ts with
    | nil => simp [TypeSpec.own, TypeSpec.ask, TypeAsk.request, throw_eq_error]
    | cons result params => simp [TypeSpec.own, TypeSpec.ask, TypeAsk.request, hmake]
  | named name =>
    simp [has_iff hc, TypeSpec.tree?, TypeSpec.asked, TypeSpec.own, TypeSpec.ask, TypeAsk.request, hr.named_eq_ok_iff,
      TypeDesc.tree?_eq_named_iff]
  | handle u => simp [has_handle_iff hc, TypeSpec.asked, TypeSpec.own, TypeSpec.ask, TypeAsk.request, handle_eq_ok_iff]
  | malformed => simp [has_iff hc, TypeSpec.tree?, TypeSpec.own, TypeSpec.ask, TypeAsk.request, throw_eq_error]

theorem Settled.answers_iff_has (hr : r.Settled) (s : TypeSpec) (t : TypeRef) :
    Answers r s t ↔ r.Has s t := by
  induction s using TypeSpec.asked_induction generalizing t with
  | h s ih =>
    rw [answers_iff_own hr.live, hr.has_iff_own]
    refine exists_congr fun ts => and_congr_left fun _ => ?_
    constructor
    · exact fun h => ((List.forall₂_and_left _ _).2 ⟨ih, h⟩).imp fun _ _ h => (h.1 _).1 h.2
    · exact fun h => ((List.forall₂_and_left _ _).2 ⟨ih, h⟩).imp fun _ _ h => (h.1 _).2 h.2

end TypeRegistry

namespace TypeCall

open TypeRegistry TypeRequest

variable {r r' : TypeRegistry} {e : TypeError}

theorem eq_of_refused {c : TypeCall} (hc : ∀ s, c ≠ .resolve s) (h : c.request r = .error e r') :
    r' = r := by
  cases c with
  | resolve s => exact absurd rfl (hc s)
  | named name => exact (makesOne_named name).refused h
  | setBody t fields packed =>
    obtain hb | ⟨_, _, -, h⟩ := of_bind_eq_error h
    · cases hl : r.disposed with
      | true =>
        obtain ⟨-, rfl⟩ : _ ∧ r = r' := by simpa [TypeRequest.setBody, hl] using hb
        rfl
      | false =>
        cases ha : r.admitBody t fields packed with
        | error e =>
          obtain ⟨-, rfl⟩ : _ ∧ r = r' := by simpa [TypeRequest.setBody, hl, ha] using hb
          rfl
        | ok d => simp [setBody_eq_ok hl ha] at hb
    · cases h
  | void => exact (makesOne_make .void).refused h
  | int bits => exact (makesOne_make (.int bits)).refused h
  | float kind => exact (makesOne_make (.float kind)).refused h
  | pointer space => exact (makesOne_make (.pointer space)).refused h
  | array elem count => exact (makesOne_make (.array elem count)).refused h
  | vector elem count => exact (makesOne_make (.vector elem count)).refused h
  | struct fields packed => exact (makesOne_make (.struct fields packed)).refused h
  | fn result params variadic => exact (makesOne_make (.fn result params variadic)).refused h

end TypeCall

namespace TypeRegistry

open TypeRequest

variable {r r' : TypeRegistry} {e : TypeError}

theorem Reachable.settled (h : r.Reachable) (hl : r.disposed = false) : r.Settled where
  live := hl
  canonical := (h.canonical_and_founded hl).1
  admits _ _ hd hn := h.admits hl hd hn

/-- Types that are left by a spec that is refused at a part were asked for before the part. So nothing is
left just when all that were asked for before it are there already. -/
theorem left_of_refused_of_reachable (h : r.Reachable) (hl : r.disposed = false) {c : TypeCall}
    (hc : c.request r = .error e r') :
    ((∀ s, c ≠ .resolve s) → r' = r) ∧
    ∀ s, c = .resolve s → ∃ before p after, s.inOrder = before ++ p :: after ∧
      TypeRequest.resolve p r' = .error e r' ∧
      (∀ t d, r.lookup t = some d → r'.lookup t = some d) ∧
      (∀ q ∈ before, ∃ t, r'.Has q t) ∧
      (∀ t, r'.owns t → r.owns t ∨ ∃ q ∈ before, r'.Has q t) ∧
      (r' = r ↔ ∀ q ∈ before, ∃ t, r.Has q t) := by
  refine ⟨fun hs => TypeCall.eq_of_refused hs hc, ?_⟩
  rintro s rfl
  have hr := h.settled hl
  obtain ⟨before, p, after, hs, hb, hp⟩ := (tracked_resolve s).refused hr.canonical hl hc
  have hr' : r'.Settled := by
    have hcall := LeadsTo.refl.call (r := r) (.type (.resolve s))
    rw [RegistryCall.after, TypeRequest.after, hc] at hcall
    exact (h.leadsTo hcall).settled ((grows_of_adds hb.runs).disposed.trans hl)
  refine ⟨before, p, after, hs, hp, fun t d => lookup_of_adds hb.runs, ?_, ?_, ?_⟩
  · intro q hq
    obtain ⟨t, ht⟩ := hb.answers q hq
    exact ⟨t, (hr'.answers_iff_has q t).1 ht⟩
  · intro t ht
    refine (hb.made t ht).imp_right ?_
    rintro ⟨q, hq, hqt⟩
    exact ⟨q, hq, (hr'.answers_iff_has q t).1 hqt⟩
  · constructor
    · rintro rfl q hq
      obtain ⟨t, ht⟩ := hb.answers q hq
      exact ⟨t, (hr'.answers_iff_has q t).1 ht⟩
    · intro hhas
      refine eq_of_adds hb.runs fun u hu => ?_
      rcases hb.made u hu with hu | ⟨q, hq, hqu⟩
      · exact hu
      · -- What was there before the request is what is answered after it.
        obtain ⟨t, ht⟩ := hhas q hq
        have hqt := ((hr.answers_iff_has q t).2 ht).adds hb.runs hr'.canonical
        obtain ⟨rfl, -⟩ := EStateM.Result.ok.inj (hqt.symm.trans hqu)
        exact ht.1

theorem left_of_refused_branching : branching.Reachable ∧ branching.disposed = false ∧
    ∃ r', (TypeCall.resolve (.struct [.int 8, .int 0] false)).request branching =
        .error .zeroWidth r' ∧ r'.lookup ⟨1, 6⟩ = some (.int 8) ∧
      ∃ before p after, [.int 8, .int 0, .struct [.int 8, .int 0] false] = before ++ p :: after ∧
        TypeRequest.resolve p r' = .error .zeroWidth r' ∧
        (r' = branching ↔ ∀ q ∈ before, ∃ t, branching.Has q t) := by
  have hr : branching.Reachable := reachable_afterAll 1 64 _
  have hl : branching.disposed = false := rfl
  have hc : (TypeCall.resolve (.struct [.int 8, .int 0] false)).request branching =
      .error .zeroWidth (branching.push (.int 8)) := rfl
  obtain ⟨before, p, after, hs, hp, -, -, -, heq⟩ :=
    (left_of_refused_of_reachable hr hl hc).2 _ rfl
  exact ⟨hr, hl, _, hc, rfl, before, p, after, hs, hp, heq⟩

theorem not_unchanged_of_refused :
    ¬ ∀ (r r' : TypeRegistry) (c : TypeCall) (e : TypeError), r.Reachable → r.disposed = false →
      c.request r = .error e r' → r' = r := by
  intro h
  have hc : (TypeCall.resolve (.struct [.int 32, .named "node", .int 0] false)).request (empty 1 64) =
      .error .zeroWidth (((empty 1 64).push (.int 32)).push (.named "node" none)) := rfl
  exact nomatch congrArg size (h _ _ _ _ (reachable_afterAll 1 64 []) rfl hc)

end TypeRegistry

end TypedIR
